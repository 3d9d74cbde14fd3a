import Mathlib.Data.Option.Defs

/-
  Runs of a machine given by a partial step function.

  `step s a` is the state after the action `a`, or `none` where `a` is not possible in `s`.
  `run step s as` performs the actions in order. A list of actions is one interleaving of
  everything that acts on the state, so a statement about every list of actions is a statement
  about every interleaving.

  * `inv_of_meets`: a property that every step meeting a guard keeps holds after every run of such
    steps (`Meets`).
  * `run_simulates`: two machines whose steps are related have related runs.
-/

namespace Machine

variable {σ τ α : Type*}

def run (step : σ → α → Option σ) : σ → List α → Option σ
  | s, [] => some s
  | s, a :: as => (step s a).bind fun s' => run step s' as

variable {step : σ → α → Option σ}

theorem run_cons_eq_some {s t : σ} {a : α} {as : List α} :
    run step s (a :: as) = some t ↔ ∃ s', step s a = some s' ∧ run step s' as = some t := by
  rw [run, Option.bind_eq_some_iff]

theorem run_append (s : σ) (xs ys : List α) :
    run step s (xs ++ ys) = (run step s xs).bind fun s' => run step s' ys := by
  induction xs generalizing s with
  | nil => rfl
  | cons x xs ih =>
    rw [List.cons_append, run, run]
    cases step s x with
    | none => rfl
    | some s' => exact ih s'

/-- A machine whose steps another one takes under other names. -/
theorem run_embeds {α' : Type*} {step' : τ → α' → Option τ} {f : σ → τ} {g : α → α'}
    (hstep : ∀ s a, step' (f s) (g a) = (step s a).map f) (s : σ) (as : List α) :
    run step' (f s) (as.map g) = (run step s as).map f := by
  induction as generalizing s with
  | nil => rfl
  | cons a as ih =>
    rw [List.map_cons, run, run, hstep]
    cases step s a with
    | none => rfl
    | some s' => exact ih s'

/-! ## Runs whose steps meet a guard -/

/-- Every action of the run is taken in a state in which it meets `guard`. -/
def Meets (step : σ → α → Option σ) (guard : σ → α → Prop) : σ → List α → Prop
  | _, [] => True
  | s, a :: as => guard s a ∧ ∀ s', step s a = some s' → Meets step guard s' as

theorem meets_append {guard : σ → α → Prop} {s : σ} {xs ys : List α}
    (h : Meets step guard s (xs ++ ys)) :
    Meets step guard s xs ∧ ∀ s', run step s xs = some s' → Meets step guard s' ys := by
  induction xs generalizing s with
  | nil =>
    refine ⟨trivial, ?_⟩
    intro s' hs'
    exact Option.some.inj hs' ▸ h
  | cons x xs ih =>
    obtain ⟨hx, hrest⟩ := h
    refine ⟨⟨hx, fun s' hs' => (ih (hrest s' hs')).1⟩, ?_⟩
    intro t ht
    obtain ⟨s', hs', hxs⟩ := run_cons_eq_some.mp ht
    exact (ih (hrest s' hs')).2 t hxs

/-- A property that every step meeting the guard keeps holds after every run of such steps. -/
theorem inv_of_meets {guard : σ → α → Prop} (inv : σ → Prop)
    (hstep : ∀ s a s', inv s → guard s a → step s a = some s' → inv s')
    {s t : σ} {as : List α} (hs : inv s) (hmeets : Meets step guard s as)
    (hrun : run step s as = some t) : inv t := by
  induction as generalizing s with
  | nil => exact Option.some.inj hrun ▸ hs
  | cons a as ih =>
    obtain ⟨s', ha, hrest⟩ := run_cons_eq_some.mp hrun
    exact ih (hstep s a s' hs hmeets.1 ha) (hmeets.2 s' ha) hrest

/-! ## Simulation -/

/-- Two machines whose steps are related, the impossible ones included, have related runs. -/
theorem run_simulates {step' : τ → α → Option τ} {R : σ → τ → Prop}
    (hstep : ∀ s t a, R s t → Option.Rel R (step s a) (step' t a))
    {s : σ} {t : τ} (h : R s t) (as : List α) :
    Option.Rel R (run step s as) (run step' t as) := by
  induction as generalizing s t with
  | nil => exact .some h
  | cons a as ih =>
    rw [run, run]
    have ha := hstep s t a h
    generalize step s a = x at ha ⊢
    generalize step' t a = y at ha ⊢
    cases ha with
    | none => exact .none
    | some h' => exact ih h'

end Machine
