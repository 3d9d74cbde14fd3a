import Stiles.Types.RuleOptions

/-
  Which rules a project reports (`rule_filter.rs`). A `BTreeSet` of names is a finite set; its
  order shows in the texts of the errors only.
-/

namespace Stiles

inductive RuleFilter where
  | All
  | Only (named : Finset String)
  | Except (named : Finset String)
deriving DecidableEq

namespace RuleFilter

/-- `RuleFilter::builder`: a table names the rules that run or those that do not, not both. -/
def new (enable disable : List String) : AnyhowResult RuleFilter :=
  match enable.isEmpty, disable.isEmpty with
  | true, true => .ok .All
  | false, true => .ok (.Only enable.toFinset)
  | true, false => .ok (.Except disable.toFinset)
  | false, false =>
    .error (.msg ("[rules] names both enable and disable; naming the rules that run already " ++
      "says which do not"))

def admits (filter : RuleFilter) (rule : RuleId) : Bool :=
  match filter with
  | .All => true
  | .Only names => rule.asStr ∈ names
  | .Except names => rule.asStr ∉ names

def named : RuleFilter → Finset String
  | .All => ∅
  | .Only names => names
  | .Except names => names

/-- The names of the filter that no loaded lint declares. -/
def unknown (filter : RuleFilter) (declared : Finset String) : Finset String :=
  filter.named.filter fun name => name ∉ declared

/-- Refuses a filter that names a rule nobody declares. -/
def validate (filter : RuleFilter) (declared : Finset String) : AnyhowResult Unit :=
  if filter.unknown declared = ∅ then .ok ()
  else
    .error (.msg ("[rules] names " ++ joined (filter.unknown declared) ++
      ", which no configured lint reports; the lints loaded here report " ++
      listOrNothing declared))

theorem validate_ok_iff (filter : RuleFilter) (declared : Finset String) :
    filter.validate declared = .ok () ↔ filter.named ⊆ declared := by
  have hunknown : filter.unknown declared = ∅ ↔ filter.named ⊆ declared := by
    unfold unknown
    rw [Finset.filter_eq_empty_iff]
    exact ⟨fun h name hname => not_not.mp (h hname), fun h name hname => not_not.mpr (h hname)⟩
  unfold validate
  split <;> simp_all

end RuleFilter

end Stiles
