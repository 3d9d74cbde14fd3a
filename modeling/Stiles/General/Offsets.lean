import Mathlib.Data.List.Basic

/-
  Offsets into a sequence whose items have different widths.

  `size` is the width of a sequence. An offset is a boundary if it is the size of a front of the
  sequence, and `split?` cuts there and nowhere else.

  * `split?_eq_some`: a cut is where the offset says.
  * `front_of_size_lt`: of two boundaries the smaller one ends the shorter front.
-/

namespace Offsets

variable {α : Type*} (width : α → Nat)

def size : List α → Nat
  | [] => 0
  | a :: l => width a + size l

@[simp] theorem size_nil : size width [] = 0 := rfl

@[simp] theorem size_cons (a : α) (l : List α) : size width (a :: l) = width a + size width l := rfl

@[simp] theorem size_append (l m : List α) :
    size width (l ++ m) = size width l + size width m := by
  induction l with
  | nil => exact (Nat.zero_add _).symm
  | cons a l ih =>
    rw [List.cons_append, size_cons, size_cons, ih]
    omega

/-- The parts before and after an offset, if it falls between two items. -/
def split? : List α → Nat → Option (List α × List α)
  | [], offset => if offset = 0 then some ([], []) else none
  | a :: l, offset =>
    if offset = 0 then some ([], a :: l)
    else if width a ≤ offset then
      (split? l (offset - width a)).map fun (front, rest) => (a :: front, rest)
    else none

/-- Some front of the sequence has this size. -/
def Boundary (l : List α) (offset : Nat) : Prop :=
  ∃ front rest, l = front ++ rest ∧ size width front = offset

theorem boundary_zero (l : List α) : Boundary width l 0 := ⟨[], l, rfl, rfl⟩

theorem boundary_le {l : List α} {offset : Nat} (h : Boundary width l offset) :
    offset ≤ size width l := by
  obtain ⟨front, rest, rfl, rfl⟩ := h
  rw [size_append]
  omega

/-- A smaller boundary ends a shorter front. -/
theorem front_of_size_lt {width : α → Nat} {front rest front' rest' : List α}
    (h : front ++ rest = front' ++ rest') (hsize : size width front < size width front') :
    ∃ between, between ≠ [] ∧ front' = front ++ between := by
  rcases List.append_eq_append_iff.mp h with ⟨between, hfront', _⟩ | ⟨between, hfront, _⟩
  · refine ⟨between, ?_, hfront'⟩
    intro hnil
    rw [hfront', hnil, List.append_nil] at hsize
    exact Nat.lt_irrefl _ hsize
  · rw [hfront, size_append] at hsize
    omega

variable {width} (hpos : ∀ a, 0 < width a)
include hpos

theorem split?_append (front rest : List α) :
    split? width (front ++ rest) (size width front) = some (front, rest) := by
  induction front with
  | nil => cases rest <;> rfl
  | cons a front ih =>
    have ha := hpos a
    rw [List.cons_append, split?, size_cons, if_neg (by omega), if_pos (by omega),
      Nat.add_sub_cancel_left, ih]
    rfl

theorem split?_eq_some {l front rest : List α} {offset : Nat} :
    split? width l offset = some (front, rest) ↔
      l = front ++ rest ∧ size width front = offset := by
  constructor
  · induction l generalizing front offset with
    | nil =>
      intro h
      unfold split? at h
      split at h
      · rename_i hzero
        obtain ⟨rfl, rfl⟩ := Prod.mk.inj (Option.some.inj h)
        exact ⟨rfl, hzero.symm⟩
      · cases h
    | cons a l ih =>
      intro h
      unfold split? at h
      split at h
      · rename_i hzero
        obtain ⟨rfl, rfl⟩ := Prod.mk.inj (Option.some.inj h)
        exact ⟨rfl, hzero.symm⟩
      · split at h
        · rename_i hfits
          obtain ⟨⟨front', rest'⟩, hsplit, heq⟩ := Option.map_eq_some_iff.mp h
          obtain ⟨rfl, rfl⟩ := Prod.mk.inj heq
          obtain ⟨rfl, hsize⟩ := ih hsplit
          refine ⟨rfl, ?_⟩
          rw [size_cons, hsize]
          omega
        · cases h
  · intro h
    obtain ⟨rfl, rfl⟩ := h
    exact split?_append hpos front rest

end Offsets
