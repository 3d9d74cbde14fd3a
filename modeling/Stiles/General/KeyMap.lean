import Mathlib.Data.List.Nodup
import Stiles.General.Keyed

/-
  Maps whose keys are compared by a part of them.

  A `KeyMap key ν` has values of `ν` under keys of `α`, of which no two agree on `key`. An insertion
  under a key that is there replaces the value and keeps the key.

  * `get_insert`: what an insertion changes.
  * `get_eq_some`, `contains_iff`: a lookup in terms of the entries.
  * `get_ofPairs`, `values_ofPairs_perm`: the order of the insertions does not matter if all values
    of a key agree.
  * `sorted_strict`: the entries in order of the keys.
-/

/-- Entries under keys that differ on `key`. -/
structure KeyMap {α κ : Type*} (key : α → κ) (ν : Type*) where
  entries : List (α × ν)
  distinct : (entries.map fun entry => key entry.1).Nodup

namespace KeyMap

variable {α κ ν : Type*} [DecidableEq κ] {key : α → κ}

def empty : KeyMap key ν where
  entries := []
  distinct := List.nodup_nil

/-- The entries after an insertion. -/
def putIn (key : α → κ) (a : α) (v : ν) : List (α × ν) → List (α × ν)
  | [] => [(a, v)]
  | (b, w) :: rest => if key b = key a then (b, v) :: rest else (b, w) :: putIn key a v rest

theorem keys_putIn (a : α) (v : ν) (entries : List (α × ν)) :
    ((putIn key a v entries).map fun entry => key entry.1)
      = if key a ∈ entries.map (fun entry => key entry.1) then entries.map fun entry => key entry.1
        else entries.map (fun entry => key entry.1) ++ [key a] := by
  induction entries with
  | nil => rfl
  | cons entry rest ih =>
    obtain ⟨b, w⟩ := entry
    unfold putIn
    by_cases hb : key b = key a
    · simp [hb]
    · have hne : key a ≠ key b := fun h => hb h.symm
      rw [if_neg hb, List.map_cons, ih]
      simp only [List.map_cons, List.mem_cons, hne, false_or]
      split <;> rfl

def insert (m : KeyMap key ν) (a : α) (v : ν) : KeyMap key ν where
  entries := putIn key a v m.entries
  distinct := by
    rw [keys_putIn]
    split
    · exact m.distinct
    · rename_i hfresh
      rw [List.nodup_append]
      refine ⟨m.distinct, List.nodup_singleton _, fun k hk k' hk' heq => ?_⟩
      rw [List.mem_singleton] at hk'
      exact hfresh (hk' ▸ heq ▸ hk)

def get (m : KeyMap key ν) (a : α) : Option ν :=
  (m.entries.find? fun entry => key entry.1 = key a).map Prod.snd

def contains (m : KeyMap key ν) (a : α) : Bool :=
  (m.get a).isSome

@[simp] theorem get_empty (a : α) : (empty : KeyMap key ν).get a = none := rfl

/-- A lookup after an insertion. -/
theorem get_insert (m : KeyMap key ν) (a b : α) (v : ν) :
    (m.insert a v).get b = if key a = key b then some v else m.get b := by
  show ((putIn key a v m.entries).find? _).map Prod.snd
    = if key a = key b then some v else (m.entries.find? _).map Prod.snd
  induction m.entries with
  | nil =>
    by_cases hab : key a = key b
    · simp [putIn, hab]
    · simp [putIn, hab]
  | cons entry rest ih =>
    obtain ⟨c, w⟩ := entry
    unfold putIn
    by_cases hca : key c = key a
    · rw [if_pos hca]
      by_cases hab : key a = key b
      · simp [hca, hab]
      · have hcb : key c ≠ key b := fun h => hab (hca.symm.trans h)
        simp [hab, hcb]
    · rw [if_neg hca]
      by_cases hcb : key c = key b
      · have hab : key a ≠ key b := fun h => hca (hcb.trans h.symm)
        simp [hcb, hab]
      · simpa [hcb] using ih

/-- A lookup finds the value of the entry that agrees on the key. -/
theorem get_eq_some {m : KeyMap key ν} {a : α} {v : ν} :
    m.get a = some v ↔ ∃ b, (b, v) ∈ m.entries ∧ key b = key a := by
  rw [get, Option.map_eq_some_iff]
  constructor
  · intro h
    obtain ⟨⟨b, w⟩, hfind, rfl⟩ := h
    exact ⟨b, List.mem_of_find?_eq_some hfind, by simpa using List.find?_some hfind⟩
  · intro h
    obtain ⟨b, hmem, hkey⟩ := h
    have hfound : (m.entries.find? fun entry => key entry.1 = key a).isSome :=
      List.find?_isSome.mpr ⟨(b, v), hmem, by simpa using hkey⟩
    obtain ⟨other, hother⟩ := Option.isSome_iff_exists.mp hfound
    have hagrees : key other.1 = key a := by simpa using List.find?_some hother
    have hsame : key other.1 = key b := hagrees.trans hkey.symm
    have heq := List.inj_on_of_nodup_map m.distinct (List.mem_of_find?_eq_some hother) hmem hsame
    exact ⟨other, hother, heq ▸ rfl⟩

theorem contains_iff {m : KeyMap key ν} {a : α} :
    m.contains a = true ↔ ∃ entry ∈ m.entries, key entry.1 = key a := by
  rw [contains, Option.isSome_iff_exists]
  constructor
  · intro h
    obtain ⟨v, hv⟩ := h
    obtain ⟨b, hmem, hkey⟩ := get_eq_some.mp hv
    exact ⟨(b, v), hmem, hkey⟩
  · intro h
    obtain ⟨⟨b, v⟩, hmem, hkey⟩ := h
    exact ⟨v, get_eq_some.mpr ⟨b, hmem, hkey⟩⟩

theorem contains_insert (m : KeyMap key ν) (a b : α) (v : ν) :
    (m.insert a v).contains b = true ↔ key a = key b ∨ m.contains b = true := by
  rw [contains, get_insert, contains]
  by_cases hab : key a = key b
  · simp [hab]
  · simp [hab]

/-! ## Maps of pairs -/

/-- The pairs inserted one after the other. -/
def ofPairs (key : α → κ) (pairs : List (α × ν)) : KeyMap key ν :=
  pairs.foldl (fun m pair => m.insert pair.1 pair.2) empty

theorem ofPairs_append_singleton (pairs : List (α × ν)) (last : α × ν) :
    ofPairs key (pairs ++ [last]) = (ofPairs key pairs).insert last.1 last.2 := by
  rw [ofPairs, List.foldl_append]
  rfl

theorem putIn_ne_nil (a : α) (v : ν) (entries : List (α × ν)) : putIn key a v entries ≠ [] := by
  cases entries with
  | nil => exact List.cons_ne_nil _ _
  | cons entry rest =>
    unfold putIn
    split
    · exact List.cons_ne_nil _ _
    · exact List.cons_ne_nil _ _

theorem entries_ofPairs_eq_nil {pairs : List (α × ν)} :
    (ofPairs key pairs).entries = [] ↔ pairs = [] := by
  induction pairs using List.reverseRecOn with
  | nil => exact ⟨fun _ => rfl, fun _ => rfl⟩
  | append_singleton pairs last ih =>
    rw [ofPairs_append_singleton]
    constructor
    · intro h
      exact absurd h (putIn_ne_nil _ _ _)
    · intro h
      exact absurd h (List.append_ne_nil_of_right_ne_nil _ (List.cons_ne_nil _ _))

/-- All values of a key agree. -/
def Consistent (key : α → κ) (pairs : List (α × ν)) : Prop :=
  ∀ pair ∈ pairs, ∀ other ∈ pairs, key pair.1 = key other.1 → pair.2 = other.2

instance [DecidableEq ν] (pairs : List (α × ν)) : Decidable (Consistent key pairs) :=
  inferInstanceAs (Decidable (∀ pair ∈ pairs, ∀ other ∈ pairs,
    key pair.1 = key other.1 → pair.2 = other.2))

theorem get_ofPairs {pairs : List (α × ν)} (h : Consistent key pairs) {a : α} {v : ν} :
    (ofPairs key pairs).get a = some v ↔ ∃ pair ∈ pairs, key pair.1 = key a ∧ pair.2 = v := by
  induction pairs using List.reverseRecOn with
  | nil => simp [ofPairs]
  | append_singleton pairs last ih =>
    have hbefore : Consistent key pairs := fun pair hpair other hother =>
      h pair (List.mem_append_left _ hpair) other (List.mem_append_left _ hother)
    have hlast : last ∈ pairs ++ [last] := List.mem_append_right _ (List.mem_singleton_self last)
    rw [ofPairs_append_singleton, get_insert]
    by_cases hkey : key last.1 = key a
    · rw [if_pos hkey]
      constructor
      · intro hv
        exact ⟨last, hlast, hkey, Option.some.inj hv⟩
      · intro hpair
        obtain ⟨pair, hpair, hagrees, rfl⟩ := hpair
        exact congrArg some (h last hlast pair hpair (hkey.trans hagrees.symm))
    · rw [if_neg hkey, ih hbefore]
      constructor
      · intro hpair
        obtain ⟨pair, hpair, hagrees⟩ := hpair
        exact ⟨pair, List.mem_append_left _ hpair, hagrees⟩
      · intro hpair
        obtain ⟨pair, hpair, hagrees⟩ := hpair
        rcases List.mem_append.mp hpair with hold | hnew
        · exact ⟨pair, hold, hagrees⟩
        · exact absurd (List.mem_singleton.mp hnew ▸ hagrees.1) hkey

/-- The entries, each with its key in place of what has the key. -/
theorem mem_keyed {m : KeyMap key ν} {a : α} {v : ν} :
    (key a, v) ∈ m.entries.map (fun entry => (key entry.1, entry.2)) ↔ m.get a = some v := by
  rw [List.mem_map, get_eq_some]
  constructor
  · intro h
    obtain ⟨⟨b, w⟩, hmem, heq⟩ := h
    obtain ⟨hkey, rfl⟩ := Prod.mk.inj heq
    exact ⟨b, hmem, hkey⟩
  · intro h
    obtain ⟨b, hmem, hkey⟩ := h
    exact ⟨(b, v), hmem, by rw [hkey]⟩

/-- Two maps with the same lookups have the same entries, up to order and to what has the keys. -/
theorem keyed_perm {m m' : KeyMap key ν} (h : ∀ a, m.get a = m'.get a) :
    (m.entries.map fun entry => (key entry.1, entry.2)).Perm
      (m'.entries.map fun entry => (key entry.1, entry.2)) := by
  have hnodup : ∀ m : KeyMap key ν, (m.entries.map fun entry => (key entry.1, entry.2)).Nodup := by
    intro m
    have hkeys : (m.entries.map fun entry => (key entry.1, entry.2)).map Prod.fst
        = m.entries.map fun entry => key entry.1 := List.map_map
    exact List.Nodup.of_map Prod.fst (hkeys ▸ m.distinct)
  have hsubset : ∀ m m' : KeyMap key ν, (∀ a, m.get a = m'.get a) →
      ∀ pair ∈ m.entries.map (fun entry => (key entry.1, entry.2)),
        pair ∈ m'.entries.map (fun entry => (key entry.1, entry.2)) := by
    intro m m' h pair hpair
    obtain ⟨entry, _, rfl⟩ := List.mem_map.mp hpair
    exact mem_keyed.mpr ((h entry.1).symm.trans (mem_keyed.mp hpair))
  refine (List.perm_ext_iff_of_nodup (hnodup m) (hnodup m')).mpr fun pair => ⟨?_, ?_⟩
  · exact hsubset m m' h pair
  · exact hsubset m' m (fun a => (h a).symm) pair

end KeyMap

/-! ## The order of the keys -/

namespace KeyMap

variable {α κ ν : Type*} [LinearOrder κ] {key : α → κ}

/-- The entries in order of their keys. -/
def sorted (m : KeyMap key ν) : List (α × ν) :=
  Keyed.sortBy (fun entry => key entry.1) m.entries

/-- The values in order of their keys. -/
def values (m : KeyMap key ν) : List ν :=
  m.sorted.map Prod.snd

theorem mem_sorted {m : KeyMap key ν} {entry : α × ν} : entry ∈ m.sorted ↔ entry ∈ m.entries :=
  Keyed.mem_sortBy _

theorem sorted_strict (m : KeyMap key ν) :
    (m.sorted.map fun entry => key entry.1).Pairwise (· < ·) :=
  Keyed.strict_sortBy _ m.distinct

variable [DecidableEq κ]

/-- The values depend on the lookups only. -/
theorem values_congr {m m' : KeyMap key ν} (h : ∀ a, m.get a = m'.get a) :
    m.values = m'.values := by
  have hkeyed : ∀ m : KeyMap key ν,
      m.values = (Keyed.sortBy Prod.fst
        (m.entries.map fun entry => (key entry.1, entry.2))).map Prod.snd := by
    intro m
    have hsorted : m.sorted.map (fun entry => (key entry.1, entry.2))
        = Keyed.sortBy Prod.fst (m.entries.map fun entry => (key entry.1, entry.2)) :=
      List.map_insertionSort _ _ _ _ fun _ _ _ _ => Iff.rfl
    rw [← hsorted, List.map_map, values]
    rfl
  have hnodup : ((m.entries.map fun entry => (key entry.1, entry.2)).map Prod.fst).Nodup := by
    rw [List.map_map]
    exact m.distinct
  rw [hkeyed m, hkeyed m', Keyed.sortBy_perm_eq Prod.fst (keyed_perm h) hnodup]

/-- The order of consistent pairs does not matter. -/
theorem values_ofPairs_perm {pairs pairs' : List (α × ν)} (h : Consistent key pairs)
    (hperm : pairs.Perm pairs') : (ofPairs key pairs).values = (ofPairs key pairs').values := by
  have hother : Consistent key pairs' := fun pair hpair other hother =>
    h pair (hperm.mem_iff.mpr hpair) other (hperm.mem_iff.mpr hother)
  apply values_congr
  intro a
  ext v
  rw [get_ofPairs h, get_ofPairs hother]
  constructor
  · intro hv
    obtain ⟨pair, hpair, hagrees⟩ := hv
    exact ⟨pair, hperm.mem_iff.mp hpair, hagrees⟩
  · intro hv
    obtain ⟨pair, hpair, hagrees⟩ := hv
    exact ⟨pair, hperm.mem_iff.mpr hpair, hagrees⟩

end KeyMap
