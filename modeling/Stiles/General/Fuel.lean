import Mathlib.Data.Fintype.Card
import Mathlib.Data.Set.Finite.List
import Mathlib.Order.WellFounded
import Mathlib.Logic.Relation

/-
  Recursion over a graph, with fuel.

  A recursive function that may not end is `fuelled F`, where `F` is its body with the recursive
  calls as an argument: the result with a given depth of calls, or `none` where that depth does not
  do. `Recurses next F` says that the body at `a` calls exactly the items of `next a`.

  * `fuelled_mono`: more fuel gives the same result.
  * `ends_iff_acc`: some depth is enough at `a` exactly if the calls below `a` are well founded.
  * `acc_of_acyclic`: on a finite set the calls are well founded if none leads back to itself.
  * `fuelled_induction`: what the body makes of results that meet a postcondition meets it too.
-/

namespace Fuel

variable {α β : Type*}

def fuelled (F : (α → Option β) → α → Option β) : Nat → α → Option β
  | 0, _ => none
  | fuel + 1, a => F (fuelled F fuel) a

/-- The body `F` calls the items of `next a`, needs every one of them, and nothing else. -/
structure Recurses (next : α → List α) (F : (α → Option β) → α → Option β) : Prop where
  isSome : ∀ f a, (F f a).isSome ↔ ∀ b ∈ next a, (f b).isSome
  congr : ∀ f g a, (∀ b ∈ next a, f b = g b) → F f a = F g a

variable {next : α → List α} {F : (α → Option β) → α → Option β}

theorem fuelled_step (hF : Recurses next F) {fuel : Nat} {a : α} {y : β}
    (h : fuelled F fuel a = some y) : fuelled F (fuel + 1) a = some y := by
  induction fuel generalizing a y with
  | zero => exact absurd h (by simp [fuelled])
  | succ fuel ih =>
    have hcalls : ∀ b ∈ next a, (fuelled F fuel b).isSome :=
      (hF.isSome (fuelled F fuel) a).mp (Option.isSome_of_mem h)
    have hsame : F (fuelled F fuel) a = F (fuelled F (fuel + 1)) a := by
      apply hF.congr
      intro b hb
      obtain ⟨z, hz⟩ := Option.isSome_iff_exists.mp (hcalls b hb)
      rw [hz, ih hz]
    show F (fuelled F (fuel + 1)) a = some y
    rw [← hsame]
    exact h

theorem fuelled_mono (hF : Recurses next F) {m n : Nat} (hmn : m ≤ n) {a : α} {y : β}
    (h : fuelled F m a = some y) : fuelled F n a = some y := by
  induction hmn with
  | refl => exact h
  | step _ ih => exact fuelled_step hF ih

/-- Finitely many calls that each end with some fuel all end with the same fuel. -/
theorem exists_fuel (hF : Recurses next F) (as : List α)
    (h : ∀ a ∈ as, ∃ fuel, (fuelled F fuel a).isSome) :
    ∃ fuel, ∀ a ∈ as, (fuelled F fuel a).isSome := by
  induction as with
  | nil => exact ⟨0, fun a ha => absurd ha List.not_mem_nil⟩
  | cons a as ih =>
    obtain ⟨m, hm⟩ := h a List.mem_cons_self
    obtain ⟨n, hn⟩ := ih (fun b hb => h b (List.mem_cons_of_mem a hb))
    refine ⟨max m n, ?_⟩
    intro b hb
    rcases List.mem_cons.mp hb with rfl | hb
    · obtain ⟨y, hy⟩ := Option.isSome_iff_exists.mp hm
      exact Option.isSome_of_mem (fuelled_mono hF (Nat.le_max_left m n) hy)
    · obtain ⟨y, hy⟩ := Option.isSome_iff_exists.mp (hn b hb)
      exact Option.isSome_of_mem (fuelled_mono hF (Nat.le_max_right m n) hy)

/-! ## Bodies that call once for each item of a list -/

theorem isSome_mapM {γ : Type*} {f : γ → Option β} {l : List γ} :
    (l.mapM f).isSome ↔ ∀ c ∈ l, (f c).isSome := by
  induction l with
  | nil => simp
  | cons c l ih =>
    rw [List.mapM_cons, List.forall_mem_cons, ← ih]
    cases f c <;> cases l.mapM f <;> simp

theorem mapM_congr {γ : Type*} {f g : γ → Option β} {l : List γ} (h : ∀ c ∈ l, f c = g c) :
    l.mapM f = l.mapM g := by
  induction l with
  | nil => rfl
  | cons c l ih =>
    obtain ⟨hc, hl⟩ := List.forall_mem_cons.mp h
    rw [List.mapM_cons, List.mapM_cons, hc, ih hl]

theorem mem_of_mapM_eq_some {γ : Type*} {f : γ → Option β} {l : List γ} {ys : List β}
    (h : l.mapM f = some ys) {y : β} : y ∈ ys ↔ ∃ c ∈ l, f c = some y := by
  induction l generalizing ys with
  | nil =>
    have hys : ys = [] := (Option.some.inj h).symm
    simp [hys]
  | cons c l ih =>
    rw [List.mapM_cons] at h
    obtain ⟨z, hz, hrest⟩ := Option.bind_eq_some_iff.mp h
    obtain ⟨zs, hzs, hpure⟩ := Option.bind_eq_some_iff.mp hrest
    have hys : z :: zs = ys := Option.some.inj hpure
    rw [← hys, List.mem_cons, ih hzs, List.exists_mem_cons_iff, hz, Option.some.injEq,
      eq_comm (a := z)]

/-! ## When the recursion ends -/

theorem ends_iff_acc (hF : Recurses next F) (a : α) :
    (∃ fuel, (fuelled F fuel a).isSome) ↔ Acc (fun b a => b ∈ next a) a := by
  constructor
  · rintro ⟨fuel, h⟩
    induction fuel generalizing a with
    | zero => exact absurd h (by simp [fuelled])
    | succ fuel ih =>
      have hcalls := (hF.isSome (fuelled F fuel) a).mp h
      exact Acc.intro a (fun b hb => ih b (hcalls b hb))
  · intro h
    induction h with
    | intro a _ ih =>
      obtain ⟨fuel, hfuel⟩ := exists_fuel hF (next a) ih
      exact ⟨fuel + 1, (hF.isSome (fuelled F fuel) a).mpr hfuel⟩

/-- No infinite descent without a cycle, on a finite set that the relation does not leave. -/
theorem acc_of_acyclic {r : α → α → Prop} {vs : List α} (hclosed : ∀ a ∈ vs, ∀ b, r b a → b ∈ vs)
    (hacyclic : ∀ a ∈ vs, ¬Relation.TransGen r a a) {a : α} (ha : a ∈ vs) : Acc r a := by
  let below : {x // x ∈ vs} → {x // x ∈ vs} → Prop := fun x y => Relation.TransGen r x.1 y.1
  have hfinite : Finite {x // x ∈ vs} := (List.finite_toSet vs).to_subtype
  have htrans : IsTrans _ below := ⟨fun _ _ _ hxy hyz => hxy.trans hyz⟩
  have hirrefl : Std.Irrefl below := ⟨fun x => hacyclic x.1 x.2⟩
  have hwf : WellFounded below := Finite.wellFounded_of_trans_of_irrefl below
  have hinside : ∀ x : {x // x ∈ vs}, Acc r x.1 := by
    intro x
    induction x using hwf.induction with
    | _ x ih =>
      refine Acc.intro x.1 (fun b hb => ?_)
      exact ih ⟨b, hclosed x.1 x.2 b hb⟩ (Relation.TransGen.single hb)
  exact hinside ⟨a, ha⟩

theorem acyclic_of_acc {r : α → α → Prop} {a : α} (h : Acc r a) : ¬Relation.TransGen r a a := by
  have hdescend : Acc (Relation.TransGen r) a := h.transGen
  clear h
  induction hdescend with
  | intro a _ ih => exact fun hloop => ih a hloop hloop

/-! ## What the recursion returns -/

theorem fuelled_induction (next : α → List α) {P : α → β → Prop}
    (hbody : ∀ f a y, (∀ b ∈ next a, ∀ z, f b = some z → P b z) → F f a = some y → P a y)
    {fuel : Nat} {a : α} {y : β} (h : fuelled F fuel a = some y) : P a y := by
  induction fuel generalizing a y with
  | zero => exact absurd h (by simp [fuelled])
  | succ fuel ih => exact hbody (fuelled F fuel) a y (fun b _ z hz => ih hz) h

end Fuel
