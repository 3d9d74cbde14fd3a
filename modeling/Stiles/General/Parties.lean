import Mathlib.Logic.Function.Basic
import Stiles.General.Machine

/-
  Parties that share one value.

  Every party has a state of its own, and a step of one party reads and changes its own state and
  the shared value. `step` is the machine of all of them: an action names the party that takes it.

  `inv_step` is the rule for invariants of the form: `shared` holds of the shared value, and
  `own` relates it to the state of every party. A step keeps such an invariant if it keeps `shared`,
  gives `own` for the party that took it, and takes `own` from no other party.
-/

namespace Parties

variable {δ ρ α : Type*}

structure State (δ ρ : Type*) where
  shared : δ
  party : Nat → ρ

/-- One step of party `action.1`. -/
def step (act : Nat → δ → ρ → α → Option (δ × ρ)) (s : State δ ρ) (action : Nat × α) :
    Option (State δ ρ) :=
  (act action.1 s.shared (s.party action.1) action.2).map fun after =>
    { shared := after.1, party := Function.update s.party action.1 after.2 }

variable {act : Nat → δ → ρ → α → Option (δ × ρ)}

theorem step_eq_some {s s' : State δ ρ} {action : Nat × α} :
    step act s action = some s' ↔
      ∃ d r, act action.1 s.shared (s.party action.1) action.2 = some (d, r) ∧
        s' = { shared := d, party := Function.update s.party action.1 r } := by
  unfold step
  rw [Option.map_eq_some_iff]
  constructor
  · rintro ⟨⟨d, r⟩, hact, rfl⟩
    exact ⟨d, r, hact, rfl⟩
  · rintro ⟨d, r, hact, rfl⟩
    exact ⟨(d, r), hact, rfl⟩

/-- A party that takes all the steps: the others stay where they are. -/
theorem run_alone (s : State δ ρ) (pid : Nat) (actions : List α) :
    Machine.run (step act) s (actions.map (Prod.mk pid))
      = (Machine.run (fun x action => act pid x.1 x.2 action) (s.shared, s.party pid) actions).map
        fun x => { shared := x.1, party := Function.update s.party pid x.2 } := by
  induction actions generalizing s with
  | nil =>
    have hself : Function.update s.party pid (s.party pid) = s.party := Function.update_eq_self ..
    rw [List.map_nil, Machine.run, Machine.run, Option.map_some, hself]
  | cons action actions ih =>
    rw [List.map_cons, Machine.run, Machine.run, step]
    cases act pid s.shared (s.party pid) action with
    | none => rfl
    | some after =>
      rw [Option.map_some, Option.bind_some, Option.bind_some, ih]
      simp only [Function.update_self, Function.update_idem]

theorem run_alone_ends {s : State δ ρ} {pid : Nat} {actions : List α} {d : δ} {r : ρ}
    (h : Machine.run (fun x action => act pid x.1 x.2 action) (s.shared, s.party pid) actions
      = some (d, r)) :
    ∃ t, Machine.run (step act) s (actions.map (Prod.mk pid)) = some t ∧ t.shared = d ∧
      t.party pid = r := by
  refine ⟨{ shared := d, party := Function.update s.party pid r }, ?_, rfl, ?_⟩
  · rw [run_alone, h]
    rfl
  · exact Function.update_self ..

/-- `shared` holds of the shared value, and `own` of it with every party. -/
structure Inv (shared : δ → Prop) (own : Nat → δ → ρ → Prop) (s : State δ ρ) : Prop where
  shared : shared s.shared
  own : ∀ pid, own pid s.shared (s.party pid)

theorem inv_step {shared : δ → Prop} {own : Nat → δ → ρ → Prop} {s s' : State δ ρ}
    {action : Nat × α} (hinv : Inv shared own s) (hstep : step act s action = some s')
    (hact : ∀ d r, act action.1 s.shared (s.party action.1) action.2 = some (d, r) →
      shared d ∧ own action.1 d r ∧
        ∀ pid other, pid ≠ action.1 → own pid s.shared other → own pid d other) :
    Inv shared own s' := by
  obtain ⟨d, r, heq, rfl⟩ := step_eq_some.mp hstep
  obtain ⟨hshared, hown, hothers⟩ := hact d r heq
  refine ⟨hshared, fun pid => ?_⟩
  by_cases hpid : pid = action.1
  · subst hpid
    simpa using hown
  · simpa [Function.update_of_ne hpid] using hothers pid _ hpid (hinv.own pid)

end Parties
