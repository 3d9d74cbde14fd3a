import Mathlib.Data.List.Basic

/-
  Splices: a range of a list and what replaces it.

  `Spliced at_ splices text output` says that `output` is `text` with the splices made and every other
  element as it was, where the text starts at position `at_`. The splices stand in the order of their
  ranges, and no two overlap.

  * `spliceFrom_spliced`: what is put together piece by piece is the text with the splices made.
-/

structure Splice (α : Type*) where
  start : Nat
  stop : Nat
  replacement : List α

namespace Splice

variable {α : Type*}

inductive Spliced : Nat → List (Splice α) → List α → List α → Prop where
  | done (at_ : Nat) (text : List α) : Spliced at_ [] text text
  | splice (at_ : Nat) (kept removed text output : List α) (splice : Splice α)
    (splices : List (Splice α)) (hstart : splice.start = at_ + kept.length)
    (hstop : splice.stop = at_ + kept.length + removed.length)
    (h : Spliced splice.stop splices text output) :
    Spliced at_ (splice :: splices) (kept ++ (removed ++ text))
      (kept ++ (splice.replacement ++ output))

/-- The ranges stand between two positions, one after the other. -/
def Ordered : Nat → List (Splice α) → Nat → Prop
  | at_, [], stop => at_ ≤ stop
  | at_, splice :: splices, stop =>
    at_ ≤ splice.start ∧ splice.start ≤ splice.stop ∧ Ordered splice.stop splices stop

theorem Ordered.le {at_ stop : Nat} {splices : List (Splice α)} (h : Ordered at_ splices stop) :
    at_ ≤ stop := by
  induction splices generalizing at_ with
  | nil => exact h
  | cons splice splices ih =>
    obtain ⟨hstart, hstop, hrest⟩ := h
    have := ih hrest
    omega

theorem Ordered.mem {at_ stop : Nat} {splices : List (Splice α)} (h : Ordered at_ splices stop) :
    ∀ splice ∈ splices, at_ ≤ splice.start ∧ splice.start ≤ splice.stop := by
  induction splices generalizing at_ with
  | nil => exact fun splice hsplice => absurd hsplice List.not_mem_nil
  | cons first splices ih =>
    obtain ⟨hstart, hstop, hrest⟩ := h
    intro splice hsplice
    rcases List.mem_cons.mp hsplice with rfl | hlater
    · exact ⟨hstart, hstop⟩
    · obtain ⟨hfrom, hto⟩ := ih hrest splice hlater
      exact ⟨by omega, hto⟩

/-- No two ranges overlap. -/
theorem Ordered.pairwise {at_ stop : Nat} {splices : List (Splice α)}
    (h : Ordered at_ splices stop) : splices.Pairwise fun a b => a.stop ≤ b.start := by
  induction splices generalizing at_ with
  | nil => exact List.Pairwise.nil
  | cons splice splices ih =>
    obtain ⟨_, _, hrest⟩ := h
    refine List.Pairwise.cons (fun later hlater => ?_) (ih hrest)
    exact (hrest.mem later hlater).1

/-- The text from a position on, put together piece by piece. -/
def spliceFrom : Nat → List (Splice α) → List α → List α
  | at_, [], text => text.drop at_
  | at_, splice :: splices, text =>
    (text.drop at_).take (splice.start - at_) ++
      (splice.replacement ++ spliceFrom splice.stop splices text)

theorem spliceFrom_spliced {at_ : Nat} {splices : List (Splice α)} {text : List α}
    (h : Ordered at_ splices text.length) :
    Spliced at_ splices (text.drop at_) (spliceFrom at_ splices text) := by
  induction splices generalizing at_ with
  | nil => exact .done at_ _
  | cons splice splices ih =>
    obtain ⟨hstart, hstop, hrest⟩ := h
    have hend : splice.stop ≤ text.length := hrest.le
    -- what is kept, what is removed, and the text behind the range
    have hpieces : text.drop at_ = (text.drop at_).take (splice.start - at_) ++
        ((text.drop splice.start).take (splice.stop - splice.start) ++ text.drop splice.stop) := by
      have hbehind : text.drop splice.stop =
          (text.drop splice.start).drop (splice.stop - splice.start) := by
        rw [List.drop_drop]
        congr 1
        omega
      have hrange : text.drop splice.start = (text.drop at_).drop (splice.start - at_) := by
        rw [List.drop_drop]
        congr 1
        omega
      rw [hbehind, List.take_append_drop, hrange, List.take_append_drop]
    rw [hpieces]
    refine .splice at_ _ _ _ _ splice splices ?_ ?_ (ih hrest)
    · rw [List.length_take, List.length_drop]
      omega
    · rw [List.length_take, List.length_drop, List.length_take, List.length_drop]
      omega

end Splice
