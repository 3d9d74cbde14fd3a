import Mathlib.Data.Finset.Card
import Mathlib.Logic.Relation

/-
  A worklist over a graph that may have cycles.

  `run` takes items off a stack. What follows an item is put on the stack the first time the item is
  taken; an item that is not known is an error.

  * `mem_run`: the result is what the stack reaches.
  * `run_known`, `run_error`: there is a result only if all items of the stack are known; an error
    names one that is not, where known items are followed by known ones.
-/

namespace Worklist

variable {κ : Type*} [DecidableEq κ] (known : Finset κ) (next : κ → List κ)

/-- Goes on until the stack is empty. -/
def run : List κ → Finset κ → Except κ (Finset κ)
  | [], seen => .ok seen
  | a :: pending, seen =>
    if a ∈ known then
      if a ∈ seen then run pending seen
      else run ((next a).reverse ++ pending) (insert a seen)
    else .error a
termination_by pending seen => ((known \ seen).card, pending.length)
decreasing_by
  · exact Prod.Lex.right _ (Nat.lt_succ_self _)
  · refine Prod.Lex.left _ _ (Finset.card_lt_card ?_)
    rw [Finset.ssubset_iff_of_subset (Finset.sdiff_subset_sdiff le_rfl (Finset.subset_insert _ _))]
    exact ⟨a, by simp_all, by simp⟩

/-- Steps from an item to what follows it. -/
def Reaches : κ → κ → Prop :=
  Relation.ReflTransGen fun a b => b ∈ next a

variable {known next}

/-! ## What is visited -/

theorem seen_subset_run {pending : List κ} {seen result : Finset κ}
    (h : run known next pending seen = .ok result) : seen ⊆ result := by
  fun_induction run known next pending seen with
  | case1 seen => exact Except.ok.inj h ▸ subset_rfl
  | case2 a pending seen _ _ ih => exact ih h
  | case3 a pending seen _ _ ih => exact (Finset.subset_insert a seen).trans (ih h)
  | case4 => cases h

theorem pending_subset_run {pending : List κ} {seen result : Finset κ}
    (h : run known next pending seen = .ok result) : ∀ a ∈ pending, a ∈ result := by
  fun_induction run known next pending seen with
  | case1 => exact fun _ hmem => absurd hmem List.not_mem_nil
  | case2 a pending seen _ hseen ih =>
    exact List.forall_mem_cons.mpr ⟨seen_subset_run h hseen, ih h⟩
  | case3 a pending seen _ _ ih =>
    have hfirst := seen_subset_run h (Finset.mem_insert_self a seen)
    refine List.forall_mem_cons.mpr ⟨hfirst, fun b hb => ?_⟩
    exact ih h b (List.mem_append_right _ hb)
  | case4 => cases h

/-- What follows an item that was seen is seen, or it still stands on the stack. -/
def Followed (next : κ → List κ) (pending : List κ) (seen : Finset κ) : Prop :=
  ∀ a ∈ seen, ∀ b ∈ next a, b ∈ seen ∨ b ∈ pending

omit [DecidableEq κ] in
theorem Followed.skip {a : κ} {pending : List κ} {seen : Finset κ}
    (h : Followed next (a :: pending) seen) (ha : a ∈ seen) : Followed next pending seen := by
  intro c hc b hb
  rcases h c hc b hb with hseen | hpending
  · exact Or.inl hseen
  · rcases List.mem_cons.mp hpending with rfl | hrest
    · exact Or.inl ha
    · exact Or.inr hrest

theorem Followed.visit {a : κ} {pending : List κ} {seen : Finset κ}
    (h : Followed next (a :: pending) seen) :
    Followed next ((next a).reverse ++ pending) (insert a seen) := by
  intro c hc b hb
  rcases Finset.mem_insert.mp hc with rfl | hold
  · exact Or.inr (List.mem_append_left _ (List.mem_reverse.mpr hb))
  · rcases h c hold b hb with hseen | hpending
    · exact Or.inl (Finset.mem_insert_of_mem hseen)
    · rcases List.mem_cons.mp hpending with rfl | hrest
      · exact Or.inl (Finset.mem_insert_self _ _)
      · exact Or.inr (List.mem_append_right _ hrest)

/-- The result is closed under the steps. -/
theorem closed_run {pending : List κ} {seen result : Finset κ}
    (h : run known next pending seen = .ok result) (hfollowed : Followed next pending seen) :
    ∀ a ∈ result, ∀ b ∈ next a, b ∈ result := by
  fun_induction run known next pending seen with
  | case1 seen =>
    obtain rfl := Except.ok.inj h
    intro a ha b hb
    exact (hfollowed a ha b hb).resolve_right List.not_mem_nil
  | case2 a pending seen _ hseen ih => exact ih h (hfollowed.skip hseen)
  | case3 a pending seen _ _ ih => exact ih h hfollowed.visit
  | case4 => cases h

/-- Only what the stack reaches is added. -/
theorem sound_run {pending : List κ} {seen result : Finset κ}
    (h : run known next pending seen = .ok result) :
    ∀ b ∈ result, b ∈ seen ∨ ∃ a ∈ pending, Reaches next a b := by
  fun_induction run known next pending seen with
  | case1 seen =>
    obtain rfl := Except.ok.inj h
    exact fun b hb => Or.inl hb
  | case2 a pending seen _ _ ih =>
    intro b hb
    rcases ih h b hb with hseen | ⟨c, hc, hreach⟩
    · exact Or.inl hseen
    · exact Or.inr ⟨c, List.mem_cons_of_mem _ hc, hreach⟩
  | case3 a pending seen _ _ ih =>
    intro b hb
    rcases ih h b hb with hseen | ⟨c, hc, hreach⟩
    · rcases Finset.mem_insert.mp hseen with rfl | hold
      · exact Or.inr ⟨b, List.mem_cons_self, .refl⟩
      · exact Or.inl hold
    · rcases List.mem_append.mp hc with hnext | hrest
      · exact Or.inr ⟨a, List.mem_cons_self, .head (List.mem_reverse.mp hnext) hreach⟩
      · exact Or.inr ⟨c, List.mem_cons_of_mem _ hrest, hreach⟩
  | case4 => cases h

/-- The result is what the stack reaches. -/
theorem mem_run {pending : List κ} {result : Finset κ}
    (h : run known next pending ∅ = .ok result) (b : κ) :
    b ∈ result ↔ ∃ a ∈ pending, Reaches next a b := by
  constructor
  · intro hb
    exact (sound_run h b hb).resolve_left (Finset.notMem_empty b)
  · intro hb
    obtain ⟨a, ha, hreach⟩ := hb
    have hfollowed : Followed next pending ∅ := fun c hc => absurd hc (Finset.notMem_empty c)
    induction hreach with
    | refl => exact pending_subset_run h a ha
    | tail _ hstep ih => exact closed_run h hfollowed _ ih _ hstep

/-! ## Errors -/

/-- An error names an item of the stack that is not known. -/
theorem run_error (hnext : ∀ a, ∀ b ∈ next a, b ∈ known) {pending : List κ} {seen : Finset κ} {b : κ}
    (h : run known next pending seen = .error b) : b ∈ pending ∧ b ∉ known := by
  fun_induction run known next pending seen with
  | case1 => cases h
  | case2 a pending seen _ _ ih => exact ⟨List.mem_cons_of_mem _ (ih h).1, (ih h).2⟩
  | case3 a pending seen _ _ ih =>
    obtain ⟨hmem, hunknown⟩ := ih h
    rcases List.mem_append.mp hmem with hfollows | hrest
    · exact absurd (hnext a b (List.mem_reverse.mp hfollows)) hunknown
    · exact ⟨List.mem_cons_of_mem _ hrest, hunknown⟩
  | case4 a pending seen hunknown =>
    obtain rfl := Except.error.inj h
    exact ⟨List.mem_cons_self, hunknown⟩

theorem run_known {pending : List κ} {seen result : Finset κ}
    (h : run known next pending seen = .ok result) : ∀ a ∈ pending, a ∈ known := by
  fun_induction run known next pending seen with
  | case1 => exact fun _ hmem => absurd hmem List.not_mem_nil
  | case2 a pending seen hknown _ ih => exact List.forall_mem_cons.mpr ⟨hknown, ih h⟩
  | case3 a pending seen hknown _ ih =>
    refine List.forall_mem_cons.mpr ⟨hknown, fun b hb => ?_⟩
    exact ih h b (List.mem_append_right _ hb)
  | case4 => cases h

theorem run_subset {pending : List κ} {seen result : Finset κ}
    (h : run known next pending seen = .ok result) (hseen : seen ⊆ known) : result ⊆ known := by
  fun_induction run known next pending seen with
  | case1 => exact Except.ok.inj h ▸ hseen
  | case2 a pending seen _ _ ih => exact ih h hseen
  | case3 a pending seen hknown _ ih => exact ih h (Finset.insert_subset hknown hseen)
  | case4 => cases h

end Worklist
