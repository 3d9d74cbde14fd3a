import Mathlib.Data.Finset.Image
import Mathlib.Data.Finset.Sort
import Mathlib.Data.String.Basic
import Stiles.Types.Errors

/-
  The options that a project sets for its rules (`rule_options.rs`, `rule_option.rs`), as one flat
  list of entries. A pass is configured with the entries of its own rules only (`forRules`).
-/

namespace Stiles

/-- One option of one rule, with its values in order. -/
structure RuleOption where
  rule : String
  name : String
  values : List String
deriving DecidableEq, Repr

structure RuleOptions where
  options : List RuleOption
deriving DecidableEq, Repr

/-- Why a table of options is refused: the rules nobody declares, beside the declared ones. -/
inductive ValidateRuleOptionsError where
  | UnknownRules (unknown declared : Finset String)
deriving DecidableEq

section

local instance names_trans : IsTrans String (· ≤ ·) := inferInstance

local instance names_antisymm : Std.Antisymm (α := String) (· ≤ ·) := inferInstance

/-- The names of a `BTreeSet`, in order, as an error lists them. -/
def joined (names : Finset String) : String := ", ".intercalate (names.sort (· ≤ ·))

end

def listOrNothing (names : Finset String) : String :=
  if names = ∅ then "nothing" else joined names

def ValidateRuleOptionsError.anyhow : ValidateRuleOptionsError → Anyhow
  | .UnknownRules unknown declared =>
    .msg ("[rules.options] configures " ++ joined unknown ++ ", which no configured lint " ++
      "reports; the lints loaded here report " ++ listOrNothing declared)

namespace RuleOptions

/-- The values that `rule` was given for the option `option`, or `none` where the table sets none. -/
def names (options : RuleOptions) (rule : RuleId) (option : String) : Option (List String) :=
  (options.options.find? fun candidate =>
    candidate.rule = rule.asStr && candidate.name = option).map RuleOption.values

/-- The entries of the rules in `rules`, in the order of the table. -/
def forRules (options : RuleOptions) (rules : List RuleId) : RuleOptions :=
  ⟨options.options.filter fun option => rules.any fun rule => rule.asStr = option.rule⟩

/-- An entry reaches a pass exactly when the table sets it and the pass declares its rule. -/
theorem mem_forRules (options : RuleOptions) (rules : List RuleId) (option : RuleOption) :
    option ∈ (options.forRules rules).options ↔
      option ∈ options.options ∧ ∃ rule ∈ rules, rule.asStr = option.rule := by
  simp [forRules, List.mem_filter]

/-- The rules that the table sets an option of and that nothing declares. -/
def unknown (options : RuleOptions) (declared : Finset String) : Finset String :=
  ((options.options.map RuleOption.rule).filter fun rule => rule ∉ declared).toFinset

/-- Refuses a table that sets an option of a rule that no loaded lint declares. -/
def validate (options : RuleOptions) (declared : Finset String) :
    Except ValidateRuleOptionsError Unit :=
  if options.unknown declared = ∅ then .ok ()
  else .error (.UnknownRules (options.unknown declared) declared)

theorem mem_unknown (options : RuleOptions) (declared : Finset String) (rule : String) :
    rule ∈ options.unknown declared ↔
      (∃ option ∈ options.options, option.rule = rule) ∧ rule ∉ declared := by
  simp [unknown]

theorem validate_ok_iff (options : RuleOptions) (declared : Finset String) :
    options.validate declared = .ok () ↔
      ∀ option ∈ options.options, option.rule ∈ declared := by
  unfold validate
  split
  · rename_i h
    simp only [true_iff]
    intro option hmem
    by_contra hnot
    have : option.rule ∈ options.unknown declared :=
      (mem_unknown _ _ _).mpr ⟨⟨option, hmem, rfl⟩, hnot⟩
    simp [h] at this
  · rename_i h
    simp only [reduceCtorEq, false_iff]
    intro hall
    refine h (Finset.eq_empty_of_forall_notMem ?_)
    intro rule hmem
    obtain ⟨⟨option, hoption, rfl⟩, hnot⟩ := (mem_unknown _ _ _).mp hmem
    exact hnot (hall option hoption)

end RuleOptions

end Stiles
