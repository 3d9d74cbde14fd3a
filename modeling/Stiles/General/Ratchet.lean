import Mathlib.Order.Defs.PartialOrder
import Mathlib.Data.Nat.Init

/-
  Histories with a measure that rises whenever what they show changes.

  `Advances` is one step: it keeps the view and does not lower the measure, or it raises the
  measure. Steps compose, so over any stretch of such steps equal measures mean equal views.
-/

namespace Ratchet

variable {σ ω ν : Type*} [PartialOrder ω] {measure : σ → ω} {view : σ → ν}

def Advances (measure : σ → ω) (view : σ → ν) (x y : σ) : Prop :=
  (view x = view y ∧ measure x ≤ measure y) ∨ measure x < measure y

theorem advances_refl (x : σ) : Advances measure view x x :=
  Or.inl ⟨rfl, le_refl _⟩

theorem advances_trans {x y z : σ} (hxy : Advances measure view x y)
    (hyz : Advances measure view y z) : Advances measure view x z := by
  rcases hxy with ⟨hview, hle⟩ | hlt
  · rcases hyz with ⟨hview', hle'⟩ | hlt'
    · exact Or.inl ⟨hview.trans hview', le_trans hle hle'⟩
    · exact Or.inr (lt_of_le_of_lt hle hlt')
  · rcases hyz with ⟨_, hle'⟩ | hlt'
    · exact Or.inr (lt_of_lt_of_le hlt hle')
    · exact Or.inr (lt_trans hlt hlt')

/-- A stretch of a history whose every step advances. -/
theorem advances_of_steps {xs : List σ} {i j : Nat} (hij : i ≤ j)
    (hsteps : ∀ k, i ≤ k → k < j → ∀ x y, xs[k]? = some x → xs[k + 1]? = some y →
      Advances measure view x y)
    {a b : σ} (ha : xs[i]? = some a) (hb : xs[j]? = some b) : Advances measure view a b := by
  induction j, hij using Nat.le_induction generalizing b with
  | base =>
    have hab : a = b := Option.some.inj (ha.symm.trans hb)
    rw [hab]
    exact advances_refl b
  | succ j hij ih =>
    obtain ⟨hlength, _⟩ := List.getElem?_eq_some_iff.mp hb
    have hj : xs[j]? = some xs[j] := List.getElem?_eq_getElem (by omega)
    have hbefore := ih (fun k hk hkj => hsteps k hk (by omega)) hj
    exact advances_trans hbefore (hsteps j hij (by omega) _ _ hj hb)

theorem view_eq_of_measure_eq {a b : σ} (h : Advances measure view a b)
    (hmeasure : measure a = measure b) : view a = view b := by
  rcases h with ⟨hview, _⟩ | hlt
  · exact hview
  · rw [hmeasure] at hlt
    exact absurd hlt (lt_irrefl _)

end Ratchet
