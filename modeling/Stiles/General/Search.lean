import Mathlib.Data.List.Sort

/-
  Binary search in a sorted list, and an index that groups list positions by a key.

  `partitionPoint p xs` is the number of leading elements that satisfy `p`, found by binary search;
  it is right when every element that satisfies `p` sits before every element that does not
  (`partitionPoint_eq`). `sortedIndex key n` is the positions `0 … n-1` in a stable order by key.

  * `slice_eq_filter`: in a list sorted by key, the slice between the two partition points of `k`
    is the list of elements with key `k`.
  * `sortedIndex_filter`: stability. The positions with key `k` stand in increasing order.
  * `grouped_eq_filter`: looking the slice of an index up in the list it indexes gives the elements
    with key `k` in list order.
-/

namespace Search

variable {α : Type*}

/-! ## Binary search -/

/-- One binary search for the first position in `[lo, hi)` where `p` is false. `fuel` bounds the
    number of halvings. -/
def bisect (p : Nat → Bool) : Nat → Nat → Nat → Nat
  | 0, lo, _ => lo
  | fuel + 1, lo, hi =>
    if lo < hi then
      let mid := (lo + hi) / 2
      if p mid then bisect p fuel (mid + 1) hi else bisect p fuel lo mid
    else lo

/-- The number of leading elements of `xs` that satisfy `p`, when `p` partitions `xs`. -/
def partitionPoint (p : α → Bool) (xs : List α) : Nat :=
  bisect (fun i => xs[i]?.any p) xs.length 0 xs.length

theorem bisect_eq (p : Nat → Bool) (k fuel lo hi : Nat) (hlo : lo ≤ k) (hhi : k ≤ hi)
    (hfuel : hi ≤ lo + fuel) (hp : ∀ i, i < hi → (p i = true ↔ i < k)) :
    bisect p fuel lo hi = k := by
  induction fuel generalizing lo hi with
  | zero => rw [bisect]; omega
  | succ fuel ih =>
    rw [bisect]
    by_cases hlt : lo < hi
    · rw [if_pos hlt]
      have hmid : (lo + hi) / 2 < hi := by omega
      by_cases hm : p ((lo + hi) / 2) = true
      · have := (hp _ hmid).mp hm
        simp only [hm, if_true]
        exact ih _ _ (by omega) hhi (by omega) hp
      · have : k ≤ (lo + hi) / 2 := by
          by_contra hk
          exact hm ((hp _ hmid).mpr (by omega))
        simp only [hm]
        exact ih _ _ hlo this (by omega) (fun i hi' => hp i (by omega))
    · rw [if_neg hlt]
      omega

/-- Binary search on a list split into a part that satisfies `p` and a part that does not. -/
theorem partitionPoint_append (p : α → Bool) (xs ys : List α) (hx : ∀ x ∈ xs, p x = true)
    (hy : ∀ y ∈ ys, p y = false) : partitionPoint p (xs ++ ys) = xs.length := by
  unfold partitionPoint
  refine bisect_eq _ _ _ _ _ (Nat.zero_le _) (by simp) (by omega) ?_
  intro i hi
  by_cases h : i < xs.length
  · rw [List.getElem?_append_left h, List.getElem?_eq_getElem h]
    simp [h, hx _ (List.getElem_mem h)]
  · have hlen : i - xs.length < ys.length := by simp at hi; omega
    rw [List.getElem?_append_right (by omega), List.getElem?_eq_getElem hlen]
    simp [h, hy _ (List.getElem_mem hlen)]

/-! ## Sorted lists -/

/-- A list sorted by a key is its part below `k`, its part at `k` and its part above `k`. -/
theorem sorted_split (key : α → Nat) (k : Nat) (xs : List α)
    (h : xs.Pairwise fun a b => key a ≤ key b) :
    xs = xs.filter (fun a => key a < k) ++
      (xs.filter (fun a => key a = k) ++ xs.filter (fun a => k < key a)) := by
  induction xs with
  | nil => rfl
  | cons x xs ih =>
    obtain ⟨hx, hxs⟩ := List.pairwise_cons.mp h
    have hi := ih hxs
    rcases Nat.lt_trichotomy (key x) k with hlt | heq | hgt
    · simp only [List.filter_cons, hlt, decide_true, if_true, Nat.ne_of_lt hlt, decide_false,
        Nat.lt_asymm hlt, List.cons_append]
      simpa using hi
    · have hnone : xs.filter (fun a => key a < k) = [] := by
        rw [List.filter_eq_nil_iff]
        intro a ha
        have := hx a ha
        simp; omega
      simp only [List.filter_cons, heq, Nat.lt_irrefl, decide_false, decide_true, if_true, hnone,
        List.nil_append, List.cons_append] at hi ⊢
      simpa using hi
    · have hlow : xs.filter (fun a => key a < k) = [] := by
        rw [List.filter_eq_nil_iff]
        intro a ha
        have := hx a ha
        simp; omega
      have heq : xs.filter (fun a => key a = k) = [] := by
        rw [List.filter_eq_nil_iff]
        intro a ha
        have := hx a ha
        simp; omega
      simp only [List.filter_cons, hgt, Nat.ne_of_gt hgt, Nat.lt_asymm hgt, decide_false,
        decide_true, if_true, hlow, heq, List.nil_append] at hi ⊢
      simpa using hi

/-- The slice of a sorted list between the two partition points of `k`. -/
def slice (key : α → Nat) (k : Nat) (xs : List α) : List α :=
  let start := partitionPoint (fun a => key a < k) xs
  let stop := partitionPoint (fun a => key a ≤ k) xs
  (xs.drop start).take (stop - start)

theorem slice_eq_filter (key : α → Nat) (k : Nat) (xs : List α)
    (h : xs.Pairwise fun a b => key a ≤ key b) :
    slice key k xs = xs.filter fun a => key a = k := by
  have hsplit := sorted_split key k xs h
  set low := xs.filter fun a => key a < k with hlow
  set mid := xs.filter fun a => key a = k with hmid
  set high := xs.filter fun a => k < key a with hhigh
  have hl : ∀ a ∈ low, key a < k := fun a ha => by simpa using (List.mem_filter.mp ha).2
  have hm : ∀ a ∈ mid, key a = k := fun a ha => by simpa using (List.mem_filter.mp ha).2
  have hh : ∀ a ∈ high, k < key a := fun a ha => by simpa using (List.mem_filter.mp ha).2
  have hstart : partitionPoint (fun a => decide (key a < k)) xs = low.length := by
    rw [hsplit]
    refine partitionPoint_append _ _ _ (fun a ha => by simpa using hl a ha) ?_
    intro a ha
    rcases List.mem_append.mp ha with ha | ha
    · simpa using Nat.le_of_eq (hm a ha).symm
    · simpa using Nat.le_of_lt (hh a ha)
  have hstop : partitionPoint (fun a => decide (key a ≤ k)) xs = (low ++ mid).length := by
    rw [hsplit, ← List.append_assoc]
    refine partitionPoint_append _ _ _ ?_ (fun a ha => by simpa using hh a ha)
    intro a ha
    rcases List.mem_append.mp ha with ha | ha
    · simpa using Nat.le_of_lt (hl a ha)
    · simpa using Nat.le_of_eq (hm a ha)
  unfold slice
  simp only [hstart, hstop]
  rw [hsplit, List.drop_left, List.length_append, Nat.add_sub_cancel_left, List.take_left]

/-! ## A stable index -/

/-- The positions `0 … n-1`, sorted by key; positions with one key keep their order. -/
def sortedIndex (key : Nat → Nat) (n : Nat) : List Nat :=
  (List.range n).insertionSort fun a b => key a ≤ key b

instance total_key_le (key : Nat → Nat) : Std.Total fun a b => key a ≤ key b :=
  ⟨fun a b => Nat.le_total (key a) (key b)⟩

instance trans_key_le (key : Nat → Nat) : IsTrans Nat fun a b => key a ≤ key b :=
  ⟨fun _ _ _ => Nat.le_trans⟩

theorem sortedIndex_pairwise (key : Nat → Nat) (n : Nat) :
    (sortedIndex key n).Pairwise fun a b => key a ≤ key b :=
  List.pairwise_insertionSort _ _

theorem sortedIndex_filter (key : Nat → Nat) (n k : Nat) :
    (sortedIndex key n).filter (fun i => key i = k) =
      (List.range n).filter fun i => key i = k := by
  have hsub : ((List.range n).filter fun i => key i = k).Sublist (sortedIndex key n) := by
    refine List.sublist_insertionSort ?_ List.filter_sublist
    refine List.Pairwise.imp_of_mem (R := fun _ _ => True) ?_
      (List.pairwise_of_forall fun _ _ => trivial)
    intro a b ha hb _
    have h1 := (List.mem_filter.mp ha).2
    have h2 := (List.mem_filter.mp hb).2
    simp only [decide_eq_true_eq] at h1 h2
    omega
  have hsub' := hsub.filter fun i => decide (key i = k)
  rw [List.filter_filter] at hsub'
  simp only [Bool.and_self] at hsub'
  refine (hsub'.eq_of_length ?_).symm
  exact ((List.perm_insertionSort _ (List.range n)).filter _).length_eq.symm

theorem range_filter_lookup (p : α → Bool) (xs : List α) :
    ((List.range xs.length).filter fun i => xs[i]?.any p).filterMap (fun i => xs[i]?) =
      xs.filter p := by
  induction xs with
  | nil => rfl
  | cons x xs ih =>
    rw [List.length_cons, List.range_succ_eq_map, List.filter_cons]
    have hrest : (List.filter (fun i => (x :: xs)[i]?.any p)
        (List.map Nat.succ (List.range xs.length))).filterMap (fun i => (x :: xs)[i]?) =
        xs.filter p := by
      rw [List.filter_map, List.filterMap_map]
      simpa [Function.comp_def] using ih
    by_cases hx : p x <;> simp [hx] at hrest ⊢ <;> exact hrest

/-- Looking up the slice of the index of `xs` gives the elements of `xs` with key `k`, in order. -/
theorem grouped_eq_filter (key : α → Nat) (k : Nat) (xs : List α) (at_ : Nat → Nat)
    (hat : ∀ i x, xs[i]? = some x → at_ i = key x) :
    (slice at_ k (sortedIndex at_ xs.length)).filterMap (fun i => xs[i]?) =
      xs.filter fun x => key x = k := by
  rw [slice_eq_filter _ _ _ (sortedIndex_pairwise _ _), sortedIndex_filter,
    ← range_filter_lookup (fun x => decide (key x = k)) xs]
  congr 1
  refine List.filter_congr ?_
  intro i hi
  have hlt := List.mem_range.mp hi
  have hget := List.getElem?_eq_getElem hlt
  rw [hget, hat i _ hget]
  simp

end Search
