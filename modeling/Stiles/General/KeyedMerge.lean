import Mathlib.Data.List.Induction
import Mathlib.Data.List.Nodup

/-
  Merging lists of keyed entries, each with a list of references.

  `absorb` adds one entry to a merged list: where an entry of its key is there, the references that
  one lacks are appended to it, and else the entry is appended. `union` says what a merge is for:
  every key in order of first appearance, with every reference any entry of the key holds, in order
  of first appearance. First appearances are `List.eraseDups`.

  * `foldl_absorb`: absorbing entries one after the other computes their union.
  * `union_append_left`, `union_append_right`: a union may stand for its entries inside another one.
  * `union_append_self`: entries that come twice change nothing.
-/

namespace KeyedMerge

/-! ## First appearances -/

section eraseDups

variable {α : Type*} [BEq α] [LawfulBEq α]

theorem nodup_eraseDups (l : List α) : l.eraseDups.Nodup := by
  match l with
  | [] => exact List.nodup_nil
  | a :: as =>
    have hlen := List.length_filter_le (fun b => !b == a) as
    rw [List.eraseDups_cons, List.nodup_cons]
    refine ⟨?_, nodup_eraseDups _⟩
    rw [List.mem_eraseDups, List.mem_filter]
    simp
termination_by l.length
decreasing_by rw [List.length_cons]; omega

theorem eraseDups_of_nodup {l : List α} (h : l.Nodup) : l.eraseDups = l := by
  induction l with
  | nil => rfl
  | cons a as ih =>
    obtain ⟨ha, has⟩ := List.nodup_cons.mp h
    have hfilter : as.filter (fun b => !b == a) = as := by
      apply List.filter_eq_self.mpr
      intro b hb
      have hne : b ≠ a := fun he => ha (he ▸ hb)
      simp [hne]
    rw [List.eraseDups_cons, hfilter, ih has]

theorem eraseDups_eraseDups (l : List α) : l.eraseDups.eraseDups = l.eraseDups :=
  eraseDups_of_nodup (nodup_eraseDups l)

theorem eraseDups_filter (p : α → Bool) (l : List α) :
    (l.filter p).eraseDups = l.eraseDups.filter p := by
  match l with
  | [] => rfl
  | a :: as =>
    have hlen := List.length_filter_le (fun b => !b == a) as
    have htail := eraseDups_filter p (as.filter fun b => !b == a)
    rw [List.eraseDups_cons, List.filter_cons, List.filter_cons, ← htail]
    split
    · rw [List.eraseDups_cons, List.filter_filter, List.filter_filter]
      simp only [Bool.and_comm]
    · rename_i ha
      rw [List.filter_filter]
      congr 1
      -- an `a` that `p` drops is no element that passes `p`
      apply List.filter_congr
      intro b _
      by_cases hb : b = a
      · subst hb
        simp [ha]
      · simp [hb]
termination_by l.length
decreasing_by rw [List.length_cons]; omega

theorem removeAll_eraseDups (l m : List α) : l.removeAll m.eraseDups = l.removeAll m := by
  apply List.filter_congr
  intro b _
  have : m.eraseDups.elem b = m.elem b := by
    rw [Bool.eq_iff_iff, List.elem_iff, List.elem_iff, List.mem_eraseDups]
  rw [this]

theorem eraseDups_append_left (l m : List α) :
    (l.eraseDups ++ m).eraseDups = (l ++ m).eraseDups := by
  rw [List.eraseDups_append, List.eraseDups_append, eraseDups_eraseDups, removeAll_eraseDups]

theorem eraseDups_append_right (l m : List α) :
    (l ++ m.eraseDups).eraseDups = (l ++ m).eraseDups := by
  rw [List.eraseDups_append, List.eraseDups_append]
  have hfilter := eraseDups_filter (fun b => !l.elem b) m
  have hagain := eraseDups_filter (fun b => !l.elem b) m.eraseDups
  rw [eraseDups_eraseDups] at hagain
  show l.eraseDups ++ (m.eraseDups.filter fun b => !l.elem b).eraseDups
    = l.eraseDups ++ (m.filter fun b => !l.elem b).eraseDups
  rw [hagain, hfilter]

theorem eraseDups_append_subset {l m : List α} (h : m ⊆ l) :
    (l ++ m).eraseDups = l.eraseDups := by
  have hempty : m.removeAll l = [] := by
    apply List.filter_eq_nil_iff.mpr
    intro b hb
    have : l.elem b = true := List.elem_iff.mpr (h hb)
    simp [List.mem_of_elem_eq_true this]
  rw [List.eraseDups_append, hempty, List.eraseDups_nil, List.append_nil]

theorem removeAll_singleton {l : List α} {a : α} (h : a ∉ l) : [a].removeAll l = [a] := by
  apply List.filter_eq_self.mpr
  intro b hb
  rw [List.mem_singleton.mp hb]
  simpa using h

/-- Appends the items of `ys` that are not there yet, one after the other. -/
def appendNew {α : Type*} [DecidableEq α] (xs ys : List α) : List α :=
  ys.foldl (fun acc y => if y ∈ acc then acc else acc ++ [y]) xs

theorem appendNew_eq {α : Type*} [DecidableEq α] {xs : List α} (h : xs.Nodup) (ys : List α) :
    appendNew xs ys = (xs ++ ys).eraseDups := by
  induction ys generalizing xs with
  | nil => rw [List.append_nil, eraseDups_of_nodup h]; rfl
  | cons y ys ih =>
    show appendNew (if y ∈ xs then xs else xs ++ [y]) ys = _
    split
    · rename_i hy
      have hsub : [y] ⊆ xs := List.cons_subset.mpr ⟨hy, List.nil_subset _⟩
      have hdrop : (xs ++ [y]).eraseDups = xs.eraseDups := eraseDups_append_subset hsub
      rw [ih h, ← eraseDups_append_left, ← hdrop, eraseDups_append_left, List.append_assoc]
      rfl
    · rename_i hy
      have hnodup : (xs ++ [y]).Nodup := by
        rw [List.nodup_append]
        refine ⟨h, List.nodup_singleton y, ?_⟩
        intro a ha b hb he
        exact hy (List.mem_singleton.mp hb ▸ he ▸ ha)
      rw [ih hnodup, List.append_assoc]
      rfl

end eraseDups

/-! ## Entries with a key -/

section entries

variable {κ ρ : Type*}

def keys (es : List (κ × List ρ)) : List κ :=
  es.map Prod.fst

theorem keys_append (es fs : List (κ × List ρ)) : keys (es ++ fs) = keys es ++ keys fs :=
  List.map_append

theorem keys_map (ks : List κ) (f : κ → List ρ) : keys (ks.map fun k => (k, f k)) = ks := by
  rw [keys, List.map_map]
  exact List.map_id ks

variable [DecidableEq κ]

/-- All references that the entries of the key `k` hold. -/
def refsOf (k : κ) (es : List (κ × List ρ)) : List ρ :=
  (es.filter fun e => e.1 = k).flatMap Prod.snd

theorem refsOf_append (k : κ) (es fs : List (κ × List ρ)) :
    refsOf k (es ++ fs) = refsOf k es ++ refsOf k fs := by
  rw [refsOf, List.filter_append, List.flatMap_append]
  rfl

theorem refsOf_singleton (k : κ) (e : κ × List ρ) :
    refsOf k [e] = if e.1 = k then e.2 else [] := by
  by_cases h : e.1 = k <;> simp [refsOf, h]

theorem refsOf_cons (k : κ) (e : κ × List ρ) (es : List (κ × List ρ)) :
    refsOf k (e :: es) = (if e.1 = k then e.2 else []) ++ refsOf k es := by
  rw [← List.singleton_append, refsOf_append, refsOf_singleton]

theorem refsOf_of_not_mem {k : κ} {es : List (κ × List ρ)} (h : k ∉ keys es) :
    refsOf k es = [] := by
  have hfilter : (es.filter fun e => e.1 = k) = [] := by
    apply List.filter_eq_nil_iff.mpr
    intro e he hk
    exact h (List.mem_map.mpr ⟨e, he, of_decide_eq_true hk⟩)
  rw [refsOf, hfilter, List.flatMap_nil]

theorem refsOf_map {ks : List κ} (hks : ks.Nodup) (f : κ → List ρ) {k : κ} (hk : k ∈ ks) :
    refsOf k (ks.map fun k => (k, f k)) = f k := by
  induction ks with
  | nil => exact absurd hk List.not_mem_nil
  | cons j ks ih =>
    obtain ⟨hj, hrest⟩ := List.nodup_cons.mp hks
    rw [List.map_cons, refsOf_cons]
    by_cases hjk : j = k
    · subst hjk
      have hnone : refsOf j (ks.map fun k => (k, f k)) = [] :=
        refsOf_of_not_mem (by rw [keys_map]; exact hj)
      rw [if_pos rfl, hnone, List.append_nil]
    · have hmem : k ∈ ks := (List.mem_cons.mp hk).resolve_left (fun h => hjk h.symm)
      rw [if_neg hjk, List.nil_append, ih hrest hmem]

end entries

variable {κ ρ : Type*} [DecidableEq κ] [DecidableEq ρ]

/-- Adds an entry: into the first entry of its key, or else at the end. -/
def absorb : List (κ × List ρ) → κ × List ρ → List (κ × List ρ)
  | [], e => [e]
  | x :: xs, e => if x.1 = e.1 then (x.1, appendNew x.2 e.2) :: xs else x :: absorb xs e

/-- Every key once, with every reference of its entries once, both by first appearance. -/
def union (es : List (κ × List ρ)) : List (κ × List ρ) :=
  (keys es).eraseDups.map fun k => (k, (refsOf k es).eraseDups)

theorem keys_union (es : List (κ × List ρ)) : keys (union es) = (keys es).eraseDups :=
  keys_map _ _

theorem refsOf_union (k : κ) (es : List (κ × List ρ)) :
    refsOf k (union es) = (refsOf k es).eraseDups := by
  by_cases hk : k ∈ keys es
  · exact refsOf_map (nodup_eraseDups _) _ (List.mem_eraseDups.mpr hk)
  · have hunion : k ∉ keys (union es) := by
      rw [keys_union, List.mem_eraseDups]
      exact hk
    rw [refsOf_of_not_mem hunion, refsOf_of_not_mem hk, List.eraseDups_nil]

/-! ## Absorbing computes the union -/

theorem absorb_of_not_mem {es : List (κ × List ρ)} {e : κ × List ρ} (h : e.1 ∉ keys es) :
    absorb es e = es ++ [e] := by
  induction es with
  | nil => rfl
  | cons x xs ih =>
    have hmem : e.1 ∉ x.1 :: keys xs := h
    rw [List.mem_cons, not_or] at hmem
    rw [absorb, if_neg (fun he => hmem.1 he.symm), ih hmem.2]
    rfl

theorem absorb_map {ks : List κ} (hks : ks.Nodup) (f : κ → List ρ) {e : κ × List ρ}
    (he : e.1 ∈ ks) :
    absorb (ks.map fun k => (k, f k)) e
      = ks.map fun k => (k, if k = e.1 then appendNew (f k) e.2 else f k) := by
  induction ks with
  | nil => exact absurd he List.not_mem_nil
  | cons j ks ih =>
    obtain ⟨hj, hrest⟩ := List.nodup_cons.mp hks
    rw [List.map_cons, List.map_cons, absorb]
    by_cases hje : j = e.1
    · have hothers : ∀ k ∈ ks, k ≠ e.1 := fun k hk hke => hj (hje ▸ hke ▸ hk)
      rw [if_pos hje, if_pos hje]
      congr 1
      apply List.map_congr_left
      intro k hk
      rw [if_neg (hothers k hk)]
    · have hmem : e.1 ∈ ks := (List.mem_cons.mp he).resolve_left (fun h => hje h.symm)
      rw [if_neg hje, if_neg hje, ih hrest hmem]

/-- One step of the merge: the union of `es` absorbs one more entry. -/
theorem absorb_union (es : List (κ × List ρ)) {e : κ × List ρ} (he : e.2.Nodup) :
    absorb (union es) e = union (es ++ [e]) := by
  have hkeys : keys (es ++ [e]) = keys es ++ [e.1] := keys_append es [e]
  by_cases hmem : e.1 ∈ keys es
  · have hsub : [e.1] ⊆ keys es := List.cons_subset.mpr ⟨hmem, List.nil_subset _⟩
    rw [union, union, absorb_map (nodup_eraseDups _) _ (List.mem_eraseDups.mpr hmem), hkeys,
      eraseDups_append_subset hsub]
    apply List.map_congr_left
    intro k _
    rw [refsOf_append, refsOf_singleton]
    by_cases hk : k = e.1
    · rw [if_pos hk, if_pos hk.symm, appendNew_eq (nodup_eraseDups _), eraseDups_append_left]
    · rw [if_neg hk, if_neg (fun h => hk h.symm), List.append_nil]
  · have hnew : e.1 ∉ keys (union es) := by
      rw [keys_union, List.mem_eraseDups]
      exact hmem
    rw [absorb_of_not_mem hnew, union, union, hkeys, List.eraseDups_append,
      removeAll_singleton hmem, List.map_append]
    congr 1
    · apply List.map_congr_left
      intro k hk
      have hne : ¬e.1 = k := fun h => hmem (h ▸ List.mem_eraseDups.mp hk)
      rw [refsOf_append, refsOf_singleton, if_neg hne, List.append_nil]
    · have hsingle : [e.1].eraseDups = [e.1] := eraseDups_of_nodup (List.nodup_singleton _)
      rw [hsingle, List.map_singleton, refsOf_append, refsOf_of_not_mem hmem, refsOf_singleton,
        if_pos rfl, List.nil_append, eraseDups_of_nodup he]

theorem foldl_absorb {es : List (κ × List ρ)} (h : ∀ e ∈ es, e.2.Nodup) :
    es.foldl absorb [] = union es := by
  induction es using List.reverseRecOn with
  | nil => rfl
  | append_singleton es e ih =>
    have hes : ∀ x ∈ es, x.2.Nodup := fun x hx => h x (List.mem_append_left _ hx)
    have he : e.2.Nodup := h e (List.mem_append_right _ (List.mem_singleton_self e))
    rw [List.foldl_append, ih hes]
    exact absorb_union es he

/-! ## Entries that repeat references

An entry that is the first of its key keeps its own repeats, so the merge of such entries is their
union up to the multiplicity of the references.
-/

theorem keys_absorb_of_mem {es : List (κ × List ρ)} {e : κ × List ρ} (h : e.1 ∈ keys es) :
    keys (absorb es e) = keys es := by
  induction es with
  | nil => exact absurd h List.not_mem_nil
  | cons x xs ih =>
    have hmem : e.1 ∈ x.1 :: keys xs := h
    rw [absorb]
    split
    · rfl
    · rename_i hne
      have htail : e.1 ∈ keys xs := (List.mem_cons.mp hmem).resolve_left (fun h => hne h.symm)
      show x.1 :: keys (absorb xs e) = x.1 :: keys xs
      rw [ih htail]

theorem keys_foldl_absorb (es : List (κ × List ρ)) :
    keys (es.foldl absorb []) = (keys es).eraseDups := by
  induction es using List.reverseRecOn with
  | nil => rfl
  | append_singleton es e ih =>
    have hkeys : keys (es ++ [e]) = keys es ++ [e.1] := keys_append es [e]
    rw [List.foldl_append, hkeys]
    show keys (absorb (es.foldl absorb []) e) = _
    by_cases hmem : e.1 ∈ keys es
    · have hfold : e.1 ∈ keys (es.foldl absorb []) := by
        rw [ih, List.mem_eraseDups]
        exact hmem
      rw [keys_absorb_of_mem hfold, ih,
        eraseDups_append_subset (List.cons_subset.mpr ⟨hmem, List.nil_subset _⟩)]
    · have hfold : e.1 ∉ keys (es.foldl absorb []) := by
        rw [ih, List.mem_eraseDups]
        exact hmem
      rw [absorb_of_not_mem hfold, keys_append, ih, List.eraseDups_append,
        removeAll_singleton hmem, eraseDups_of_nodup (List.nodup_singleton e.1)]
      rfl

theorem mem_appendNew {xs ys : List ρ} {r : ρ} : r ∈ appendNew xs ys ↔ r ∈ xs ∨ r ∈ ys := by
  induction ys generalizing xs with
  | nil => simp [appendNew]
  | cons y ys ih =>
    show r ∈ appendNew (if y ∈ xs then xs else xs ++ [y]) ys ↔ _
    rw [ih]
    split
    · rename_i hy
      constructor
      · rintro (h | h)
        · exact Or.inl h
        · exact Or.inr (List.mem_cons_of_mem y h)
      · rintro (h | h)
        · exact Or.inl h
        · rcases List.mem_cons.mp h with rfl | h
          · exact Or.inl hy
          · exact Or.inr h
    · rw [List.mem_append, List.mem_singleton, List.mem_cons, or_assoc]

theorem mem_refsOf_absorb {k : κ} {r : ρ} (es : List (κ × List ρ)) (e : κ × List ρ) :
    r ∈ refsOf k (absorb es e) ↔ r ∈ refsOf k (es ++ [e]) := by
  induction es with
  | nil => exact Iff.rfl
  | cons x xs ih =>
    rw [absorb, List.cons_append, refsOf_cons k x, List.mem_append]
    split
    · rename_i hxe
      rw [refsOf_append, refsOf_singleton, refsOf_cons, List.mem_append, List.mem_append, ← hxe]
      by_cases hk : x.1 = k
      · rw [if_pos hk, if_pos hk, if_pos hk, mem_appendNew]
        tauto
      · rw [if_neg hk, if_neg hk, if_neg hk]
        simp
    · rw [refsOf_cons, List.mem_append, ih]

theorem mem_refsOf_foldl_absorb {k : κ} {r : ρ} (es : List (κ × List ρ)) :
    r ∈ refsOf k (es.foldl absorb []) ↔ r ∈ refsOf k es := by
  induction es using List.reverseRecOn with
  | nil => exact Iff.rfl
  | append_singleton es e ih =>
    rw [List.foldl_append]
    show r ∈ refsOf k (absorb (es.foldl absorb []) e) ↔ _
    rw [mem_refsOf_absorb, refsOf_append, refsOf_append, List.mem_append, List.mem_append, ih]

/-! ## Unions inside unions -/

theorem nodup_refs_union (es : List (κ × List ρ)) : ∀ e ∈ union es, e.2.Nodup := by
  intro e he
  obtain ⟨k, _, rfl⟩ := List.mem_map.mp he
  exact nodup_eraseDups _

theorem union_congr {es fs : List (κ × List ρ)}
    (hkeys : (keys es).eraseDups = (keys fs).eraseDups)
    (hrefs : ∀ k, (refsOf k es).eraseDups = (refsOf k fs).eraseDups) : union es = union fs := by
  rw [union, union, hkeys]
  apply List.map_congr_left
  intro k _
  rw [hrefs k]

theorem union_append_left (es fs : List (κ × List ρ)) :
    union (union es ++ fs) = union (es ++ fs) := by
  apply union_congr
  · rw [keys_append, keys_union, eraseDups_append_left, keys_append]
  · intro k
    rw [refsOf_append, refsOf_union, eraseDups_append_left, refsOf_append]

theorem union_append_right (es fs : List (κ × List ρ)) :
    union (es ++ union fs) = union (es ++ fs) := by
  apply union_congr
  · rw [keys_append, keys_union, eraseDups_append_right, keys_append]
  · intro k
    rw [refsOf_append, refsOf_union, eraseDups_append_right, refsOf_append]

theorem union_append_self (es : List (κ × List ρ)) : union (es ++ es) = union es := by
  apply union_congr
  · rw [keys_append, eraseDups_append_subset (List.Subset.refl _)]
  · intro k
    rw [refsOf_append, eraseDups_append_subset (List.Subset.refl _)]

end KeyedMerge
