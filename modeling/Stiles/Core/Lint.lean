import Stiles.Types.DecoratedTree
import Stiles.Types.RuleOptions

/-
  Lint passes and the lints that wrap them (`lint_pass.rs`, `lint.rs`).

  A pass is a plugin's object: a state that only its own methods read and write. `Lint.checkNode`
  checks one node. A panic of the pass comes back as a value, and a diagnostic under a rule that
  the plugin did not declare is refused. `Lint.judge` is what a declaration does to the answer of
  the bare pass (`Lint.checkNode_eq`).
-/

namespace Stiles

variable {D : DecorationTypes}

/-- The trait object behind a `dyn LintPass`: its state and its methods. -/
structure LintPass (D : DecorationTypes) where
  {State : Type}
  state : State
  languageOf : State → Language
  configureOf : State → RuleOptions → Except Panic Unit × State
  checkNodeOf : State → DecoratedNode D → Except Panic (List Diagnostic) × State

namespace LintPass

def language (pass : LintPass D) : Language := pass.languageOf pass.state

def configure (pass : LintPass D) (options : RuleOptions) : Except Panic Unit × LintPass D :=
  let (configured, state) := pass.configureOf pass.state options
  (configured, { pass with state })

def checkNode (pass : LintPass D) (node : DecoratedNode D) :
    Except Panic (List Diagnostic) × LintPass D :=
  let (checked, state) := pass.checkNodeOf pass.state node
  (checked, { pass with state })

end LintPass

/-! ## Why a walk stops -/

structure PassPanic where
  kind : String
  span : Span
  panic : Panic
deriving DecidableEq

def PassPanic.display (e : PassPanic) : String :=
  "a lint pass panicked while checking a " ++ e.kind ++ " at byte " ++ toString e.span.start ++
    " of " ++ e.span.file.text ++ ": " ++ e.panic.message

structure UndeclaredRule where
  rule : RuleId
  declared : List RuleId
  span : Span
deriving DecidableEq

def UndeclaredRule.display (e : UndeclaredRule) : String :=
  "a lint pass reported `" ++ e.rule.asStr ++ "` at byte " ++ toString e.span.start ++ " of " ++
    e.span.file.text ++ ", but its plugin " ++
    match e.declared with
    | [] => "declares no rules for it"
    | declared =>
      "declares only " ++ ", ".intercalate (declared.map fun rule => "`" ++ rule.asStr ++ "`") ++
        " for it"

inductive WalkLintsError where
  | Panicked (source : PassPanic)
  | Undeclared (source : UndeclaredRule)
deriving DecidableEq

def WalkLintsError.display : WalkLintsError → String
  | .Panicked source => source.display
  | .Undeclared source => source.display

/-! ## Lints -/

/-- What a lint knows about the rules its pass reports. -/
inductive Declared where
  | Rules (rules : List RuleId)
  | Unchecked
deriving DecidableEq

structure Lint (D : DecorationTypes) where
  pass : LintPass D
  declared : Declared

/-- Whether the declaration lets the pass report under `rule`. -/
def Declared.permits : Declared → RuleId → Bool
  | .Rules rules, rule => rules.contains rule
  | .Unchecked, _ => true

namespace Lint

/-- `Lint::builder`: a pass with the rules its plugin declared for it. -/
def new (pass : LintPass D) (rules : List RuleId) : Lint D := { pass, declared := .Rules rules }

def unchecked (pass : LintPass D) : Lint D := { pass, declared := .Unchecked }

def language (lint : Lint D) : Language := lint.pass.language

def rules (lint : Lint D) : List RuleId :=
  match lint.declared with
  | .Rules rules => rules
  | .Unchecked => []

/-- Checks one node, and refuses a diagnostic under a rule the pass did not declare. -/
def checkNode (lint : Lint D) (node : DecoratedNode D) :
    Except WalkLintsError (List Diagnostic) × Lint D :=
  let (checked, pass) := lint.pass.checkNode node
  let lint := { lint with pass }
  match checked with
  | .error panic => (.error (.Panicked ⟨node.kind, node.span, panic⟩), lint)
  | .ok found =>
    match lint.declared with
    | .Unchecked => (.ok found, lint)
    | .Rules rules =>
      match found.find? fun diagnostic => !rules.contains diagnostic.ruleId with
      | some stray => (.error (.Undeclared ⟨stray.ruleId, rules, node.span⟩), lint)
      | none => (.ok found, lint)

/-- What a declaration makes of the answer of an unchecked lint: an answer with a diagnostic under
    an undeclared rule is an error that names the first such rule. -/
def judge (declared : Declared) (node : DecoratedNode D)
    (answer : Except WalkLintsError (List Diagnostic)) : Except WalkLintsError (List Diagnostic) :=
  match answer with
  | .error e => .error e
  | .ok found =>
    match declared with
    | .Unchecked => .ok found
    | .Rules rules =>
      match found.find? fun diagnostic => !rules.contains diagnostic.ruleId with
      | some stray => .error (.Undeclared ⟨stray.ruleId, rules, node.span⟩)
      | none => .ok found

/-- A lint runs its pass, and the declaration judges the answer. -/
theorem checkNode_eq (lint : Lint D) (node : DecoratedNode D) :
    lint.checkNode node =
      (judge lint.declared node ((unchecked lint.pass).checkNode node).1,
        { lint with pass := (lint.pass.checkNode node).2 }) := by
  unfold checkNode judge unchecked
  obtain ⟨checked, pass⟩ := lint.pass.checkNode node
  cases checked with
  | error panic => rfl
  | ok found =>
    cases lint.declared with
    | Unchecked => rfl
    | Rules rules =>
      simp only
      split <;> simp_all

theorem checkNode_declared (lint : Lint D) (node : DecoratedNode D) :
    (lint.checkNode node).2.declared = lint.declared := by
  rw [checkNode_eq]

theorem judge_error (declared : Declared) (node : DecoratedNode D) (e : WalkLintsError) :
    judge declared node (.error e) = .error e := rfl

/-- An answer passes exactly when the declaration permits every rule in it. -/
theorem judge_ok_iff {declared : Declared} {node : DecoratedNode D} {found ds : List Diagnostic} :
    judge declared node (.ok found) = .ok ds ↔
      ds = found ∧ ∀ d ∈ found, declared.permits d.ruleId = true := by
  cases declared with
  | Unchecked => simp [judge, Declared.permits, eq_comm]
  | Rules rules =>
    simp only [judge, Declared.permits]
    cases hfind : found.find? fun d => !rules.contains d.ruleId with
    | none =>
      have hall : ∀ d ∈ found, rules.contains d.ruleId = true := by
        intro d hd
        simpa using List.find?_eq_none.mp hfind d hd
      simp only [Except.ok.injEq]
      exact ⟨fun h => ⟨h.symm, hall⟩, fun h => h.1.symm⟩
    | some stray =>
      have hstray := List.find?_some hfind
      simp only [reduceCtorEq, false_iff, not_and]
      intro _ hall
      rw [hall stray (List.mem_of_find?_eq_some hfind)] at hstray
      exact absurd hstray (by decide)

/-- What a judged answer lets through is under permitted rules. -/
theorem judge_permits {declared : Declared} {node : DecoratedNode D}
    {answer : Except WalkLintsError (List Diagnostic)} {ds : List Diagnostic}
    (h : judge declared node answer = .ok ds) :
    answer = .ok ds ∧ ∀ d ∈ ds, declared.permits d.ruleId = true := by
  cases answer with
  | error e => simp [judge_error] at h
  | ok found =>
    obtain ⟨rfl, hall⟩ := judge_ok_iff.mp h
    exact ⟨rfl, hall⟩

end Lint

end Stiles
