import Mathlib.Order.Basic
import Stiles.Types.FilePath

/-
  The values that a lint pass hands back: rule ids, severities, spans and diagnostics
  (crate `stiles-types`). A message is a string.
-/

namespace Stiles

/-- The id of a rule, such as `lint.todo-comment`. -/
structure RuleId where
  id : String
deriving DecidableEq, Repr

def RuleId.asStr (rule : RuleId) : String := rule.id

/-- The languages that stiles parses. -/
inductive Language where
  | Rust
  | TypeScript
deriving DecidableEq, Repr

/-- How bad a diagnostic is, from the mildest to the most severe. -/
inductive Severity where
  | Help
  | Info
  | Warn
  | Error
deriving DecidableEq, Repr

/-- The place of a severity in the declaration order, which is the order the derive compares by. -/
def Severity.rank : Severity → Nat
  | .Help => 0
  | .Info => 1
  | .Warn => 2
  | .Error => 3

instance : LE Severity := ⟨fun s t => s.rank ≤ t.rank⟩

instance (s t : Severity) : Decidable (s ≤ t) := inferInstanceAs (Decidable (s.rank ≤ t.rank))

/-- A byte range of a file. The constructor asserts that it does not run backwards. -/
structure Span where
  file : FilePath
  start : Nat
  stop : Nat
  start_le_stop : start ≤ stop
deriving DecidableEq

structure Location where
  span : Span
  message : String
deriving DecidableEq

structure Suggestion where
  span : Span
  replacement : String
  message : String
deriving DecidableEq

structure Diagnostic where
  ruleId : RuleId
  message : String
  span : Span
  origins : List Location
  related : List Location
  suggestions : List Suggestion
  severity : Severity
deriving DecidableEq

/-- `Diagnostic::builder`: a diagnostic without origins, related places or suggestions. -/
def Diagnostic.new (ruleId : RuleId) (severity : Severity) (message : String) (span : Span) :
    Diagnostic :=
  { ruleId, message, span, origins := [], related := [], suggestions := [], severity }

def Diagnostic.withSeverity (d : Diagnostic) (severity : Severity) : Diagnostic :=
  { d with severity }

@[simp] theorem Diagnostic.withSeverity_ruleId (d : Diagnostic) (s : Severity) :
    (d.withSeverity s).ruleId = d.ruleId := rfl

@[simp] theorem Diagnostic.withSeverity_severity (d : Diagnostic) (s : Severity) :
    (d.withSeverity s).severity = s := rfl

@[simp] theorem Diagnostic.withSeverity_self (d : Diagnostic) :
    d.withSeverity d.severity = d := rfl

/-- A panic that the plugin boundary caught, with its message. -/
structure Panic where
  message : String
deriving DecidableEq, Repr

end Stiles
