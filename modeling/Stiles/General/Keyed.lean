import Mathlib.Data.List.Sort
import Stiles.General.KeyedMerge

/-
  Values under keys: grouping them, and sorting a list by the keys of its items.

  `group` puts the values of each key together, keys in order of first appearance and values in
  order. `sortBy` is a stable sort by key.

  * `group_eq`: the groups, without the loop that makes them.
  * `sortBy_keys_perm`: the sorted keys do not depend on the order of the list, and neither does the
    sorted list if no two items have one key (`sortBy_perm_eq`).
-/

namespace Keyed

/-! ## Groups -/

section group

variable {κ ν : Type*} [DecidableEq κ]

/-- Adds a value to the group of its key, or makes one. -/
def push (k : κ) (v : ν) : List (κ × List ν) → List (κ × List ν)
  | [] => [(k, [v])]
  | (key, values) :: groups =>
    if key = k then (key, values ++ [v]) :: groups else (key, values) :: push k v groups

def group (pairs : List (κ × ν)) : List (κ × List ν) :=
  pairs.foldl (fun groups pair => push pair.1 pair.2 groups) []

/-- The values of one key, in order. -/
def valuesOf (pairs : List (κ × ν)) (k : κ) : List ν :=
  (pairs.filter fun pair => pair.1 = k).map Prod.snd

theorem valuesOf_append (pairs pairs' : List (κ × ν)) (k : κ) :
    valuesOf (pairs ++ pairs') k = valuesOf pairs k ++ valuesOf pairs' k := by
  rw [valuesOf, List.filter_append, List.map_append, valuesOf, valuesOf]

/-- A key that has a group gets the value there. -/
theorem push_of_mem {k : κ} {v : ν} {ks : List κ} (hnodup : ks.Nodup) (hk : k ∈ ks)
    (f : κ → List ν) : push k v (ks.map fun key => (key, f key))
      = ks.map fun key => (key, if key = k then f key ++ [v] else f key) := by
  induction ks with
  | nil => exact absurd hk List.not_mem_nil
  | cons key ks ih =>
    obtain ⟨hfresh, htail⟩ := List.nodup_cons.mp hnodup
    rw [List.map_cons, List.map_cons, push]
    by_cases hkey : key = k
    · rw [if_pos hkey, if_pos hkey]
      congr 1
      apply List.map_congr_left
      intro other hother
      have hne : other ≠ k := fun h => hfresh (hkey ▸ h ▸ hother)
      rw [if_neg hne]
    · rw [if_neg hkey, if_neg hkey, ih htail ((List.mem_cons.mp hk).resolve_left (Ne.symm hkey))]

theorem push_of_not_mem {k : κ} {v : ν} {ks : List κ} (hk : k ∉ ks) (f : κ → List ν) :
    push k v (ks.map fun key => (key, f key)) = (ks.map fun key => (key, f key)) ++ [(k, [v])] := by
  induction ks with
  | nil => rfl
  | cons key ks ih =>
    obtain ⟨hne, htail⟩ := not_or.mp (fun h => hk (List.mem_cons.mpr h))
    rw [List.map_cons, push, if_neg (Ne.symm hne), ih htail]
    rfl

theorem group_append_singleton (pairs : List (κ × ν)) (pair : κ × ν) :
    group (pairs ++ [pair]) = push pair.1 pair.2 (group pairs) := by
  rw [group, List.foldl_append]
  rfl

theorem group_eq (pairs : List (κ × ν)) :
    group pairs = (pairs.map Prod.fst).eraseDups.map fun k => (k, valuesOf pairs k) := by
  induction pairs using List.reverseRecOn with
  | nil => rfl
  | append_singleton pairs pair ih =>
    have hnodup := KeyedMerge.nodup_eraseDups (pairs.map Prod.fst)
    rw [group_append_singleton, ih, List.map_append, List.map_singleton]
    by_cases hpair : pair.1 ∈ (pairs.map Prod.fst).eraseDups
    · have hsubset : [pair.1] ⊆ pairs.map Prod.fst :=
        List.cons_subset.mpr ⟨List.mem_eraseDups.mp hpair, List.nil_subset _⟩
      rw [push_of_mem hnodup hpair, KeyedMerge.eraseDups_append_subset hsubset]
      apply List.map_congr_left
      intro k _
      rw [valuesOf_append]
      by_cases hk : k = pair.1
      · simp [hk, valuesOf]
      · simp [hk, Ne.symm hk, valuesOf]
    · have hfresh : pair.1 ∉ pairs.map Prod.fst := fun h => hpair (List.mem_eraseDups.mpr h)
      have hnone : valuesOf pairs pair.1 = [] := by
        rw [valuesOf, List.map_eq_nil_iff, List.filter_eq_nil_iff]
        intro other hother hsame
        exact hfresh (List.mem_map.mpr ⟨other, hother, of_decide_eq_true hsame⟩)
      rw [push_of_not_mem hpair, List.eraseDups_append, KeyedMerge.removeAll_singleton hfresh,
        List.map_append]
      congr 1
      · apply List.map_congr_left
        intro k hk
        have hne : pair.1 ≠ k := fun h => hpair (h ▸ hk)
        rw [valuesOf_append]
        simp [valuesOf, hne]
      · have hown : valuesOf (pairs ++ [pair]) pair.1 = [pair.2] := by
          rw [valuesOf_append, hnone]
          simp [valuesOf]
        have hsingle : [pair.1].eraseDups = [pair.1] :=
          KeyedMerge.eraseDups_of_nodup (List.nodup_singleton pair.1)
        rw [hsingle, List.map_singleton, hown]

end group

/-! ## Sorting -/

section sort

variable {α κ : Type*} [LinearOrder κ] (key : α → κ)

/-- A stable sort by key. -/
def sortBy (l : List α) : List α :=
  l.insertionSort fun a b => key a ≤ key b

theorem sortBy_perm (l : List α) : (sortBy key l).Perm l :=
  List.perm_insertionSort _ l

@[simp] theorem mem_sortBy {l : List α} {a : α} : a ∈ sortBy key l ↔ a ∈ l :=
  (sortBy_perm key l).mem_iff

theorem pairwise_sortBy (l : List α) : ((sortBy key l).map key).Pairwise (· ≤ ·) := by
  have htotal : Std.Total fun a b => key a ≤ key b := ⟨fun a b => le_total (key a) (key b)⟩
  have htrans : IsTrans α fun a b => key a ≤ key b := ⟨fun a b c => le_trans⟩
  rw [List.pairwise_map]
  exact List.pairwise_insertionSort _ l

theorem sortBy_keys_perm {l l' : List α} (h : l.Perm l') :
    (sortBy key l).map key = (sortBy key l').map key := by
  apply List.Perm.eq_of_pairwise' (pairwise_sortBy key l) (pairwise_sortBy key l')
  exact (((sortBy_perm key l).trans h).trans (sortBy_perm key l').symm).map key

/-- The keys of a sorted list increase if no two items have one key. -/
theorem strict_sortBy {l : List α} (h : (l.map key).Nodup) :
    ((sortBy key l).map key).Pairwise (· < ·) := by
  have hnodup : ((sortBy key l).map key).Nodup := (((sortBy_perm key l).map key).nodup_iff).mpr h
  exact ((pairwise_sortBy key l).and hnodup).imp fun h => lt_of_le_of_ne h.1 h.2

/-- A list whose keys increase is what sorting makes of any order of it. -/
theorem sortBy_eq_of_strict {l l' : List α} (h : l.Perm l')
    (hsorted : (l'.map key).Pairwise (· < ·)) : sortBy key l = l' := by
  have hnodup : (l.map key).Nodup := by
    rw [(h.map key).nodup_iff]
    exact hsorted.imp fun hlt => ne_of_lt hlt
  have hleft : (sortBy key l).Pairwise fun a b => key a < key b :=
    List.pairwise_map.mp (strict_sortBy key hnodup)
  have hright : l'.Pairwise fun a b => key a < key b := List.pairwise_map.mp hsorted
  refine List.Perm.eq_of_pairwise ?_ hleft hright ((sortBy_perm key l).trans h)
  intro a b _ _ hab hba
  exact absurd hab (lt_asymm hba)

theorem sortBy_perm_eq {l l' : List α} (h : l.Perm l') (hnodup : (l.map key).Nodup) :
    sortBy key l = sortBy key l' :=
  sortBy_eq_of_strict key (h.trans (sortBy_perm key l').symm)
    (strict_sortBy key ((h.map key).nodup_iff.mp hnodup))

end sort

end Keyed
