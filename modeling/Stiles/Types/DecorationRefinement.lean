import Mathlib.Logic.Function.Basic
import Mathlib.Data.Option.Defs
import Stiles.General.Machine
import Stiles.Types.DecorationMap

/-
  A decoration map refines a plain list of entries.

  `Store` holds any number of maps and of handles into them, and `Op` is one call on them. A handle
  borrows its map, so a write to the map ends it. `Plain` is the same program over plain lists.
  `decorationMap_refines`: both run the same programs and give the same replies, with any number
  of reads between the writes. The store also keeps when each map was last written and when each
  index was sealed, and every read answers from an index that was sealed after the last write.
-/

namespace Stiles

variable {D : DecorationTypes}

/-- One call of a program. Maps and handles are named by numbers. -/
inductive Op (D : DecorationTypes) where
  | new (m : Nat)
  | insert (m nodeId : Nat) (T : D.Ty) (value : D.Value T)
  | merge (m other : Nat)
  | get (m : Nat) (T : D.Ty) (nodeId : Nat)
  | getAll (m : Nat) (T : D.Ty) (nodeId : Nat)
  | lookup (m h : Nat)
  | handleFirst (h : Nat) (T : D.Ty) (nodeId : Nat)
  | handleGetAll (h : Nat) (T : D.Ty) (nodeId : Nat)

/-- What a read answered. -/
inductive Reply (D : DecorationTypes) where
  | one (T : D.Ty) (value : Option (D.Value T))
  | all (T : D.Ty) (values : List (D.Value T))

/-! ## Programs over maps -/

/-- A map, with the times of its last write and of the sealing of its index. -/
structure Slot (D : DecorationTypes) where
  map : DecorationMap D
  written : Nat
  sealedAt : Nat

/-- The slot after a read at time `clock`, which seals an index if none is sealed. -/
def Slot.seal (slot : Slot D) (clock : Nat) : Slot D :=
  { map := slot.map.lookup.2
    written := slot.written
    sealedAt := if slot.map.sealed.isSome then slot.sealedAt else clock }

/-- A handle into a map, with the time its index was sealed. -/
structure Handle (D : DecorationTypes) where
  borrowed : Nat
  lookup : DecorationLookup D
  sealedAt : Nat

/-- One read: when its index was sealed, and when its map had last been written. -/
structure Reading where
  sealedAt : Nat
  written : Nat

structure Store (D : DecorationTypes) where
  maps : Nat → Option (Slot D)
  handles : Nat → Option (Handle D)
  clock : Nat
  replies : List (Reply D)
  readings : List Reading

namespace Store

def empty : Store D :=
  { maps := fun _ => none, handles := fun _ => none, clock := 0, replies := [], readings := [] }

/-- The handles that are left when `m` is written. -/
def release (m : Nat) (handles : Nat → Option (Handle D)) : Nat → Option (Handle D) :=
  fun h => (handles h).filter fun handle => handle.borrowed ≠ m

/-- The store after a call that wrote `slot` into `m`. -/
def wrote (s : Store D) (m : Nat) (slot : Slot D) : Store D :=
  { s with
    maps := Function.update s.maps m (some slot)
    handles := release m s.handles
    clock := s.clock + 1 }

/-- The store after the map in `m` was moved out of it. -/
def drop (s : Store D) (m : Nat) : Store D :=
  { s with maps := Function.update s.maps m none, handles := release m s.handles }

/-- The store after the handle `h` was taken on the map in `m`. -/
def lent (s : Store D) (m h : Nat) (slot : Slot D) : Store D :=
  { s with
    maps := Function.update s.maps m (some (slot.seal s.clock))
    handles := Function.update s.handles h
      (some ⟨m, slot.map.lookup.1, (slot.seal s.clock).sealedAt⟩)
    clock := s.clock + 1 }

/-- The store after a read of the map in `m`, which answered `reply`. -/
def answered (s : Store D) (m : Nat) (slot : Slot D) (reply : Reply D) : Store D :=
  { s with
    maps := Function.update s.maps m (some (slot.seal s.clock))
    clock := s.clock + 1
    replies := s.replies ++ [reply]
    readings := s.readings ++ [⟨(slot.seal s.clock).sealedAt, slot.written⟩] }

/-- The store after a read through `handle`, which answered `reply`. -/
def handleAnswered (s : Store D) (handle : Handle D) (slot : Slot D) (reply : Reply D) : Store D :=
  { s with
    clock := s.clock + 1
    replies := s.replies ++ [reply]
    readings := s.readings ++ [⟨handle.sealedAt, slot.written⟩] }

/-- One call. A call on a map or handle that is not there is no program. -/
def step (s : Store D) : Op D → Option (Store D)
  | .new m =>
    match s.maps m with
    | some _ => none
    | none => some (s.wrote m ⟨DecorationMap.new, s.clock, 0⟩)
  | .insert m nodeId T value =>
    (s.maps m).bind fun slot =>
      some (s.wrote m ⟨slot.map.insert nodeId T value, s.clock, slot.sealedAt⟩)
  | .merge m other =>
    if m = other then none
    else
      (s.maps m).bind fun slot => (s.maps other).bind fun consumed =>
        some ((s.wrote m ⟨slot.map.merge consumed.map, s.clock, slot.sealedAt⟩).drop other)
  | .get m T nodeId =>
    (s.maps m).bind fun slot => some (s.answered m slot (.one T (slot.map.get T nodeId)))
  | .getAll m T nodeId =>
    (s.maps m).bind fun slot => some (s.answered m slot (.all T (slot.map.getAll T nodeId)))
  | .lookup m h =>
    (s.maps m).bind fun slot => some (s.lent m h slot)
  | .handleFirst h T nodeId =>
    (s.handles h).bind fun handle => (s.maps handle.borrowed).bind fun slot =>
      some (s.handleAnswered handle slot (.one T (handle.lookup.first T nodeId)))
  | .handleGetAll h T nodeId =>
    (s.handles h).bind fun handle => (s.maps handle.borrowed).bind fun slot =>
      some (s.handleAnswered handle slot (.all T (handle.lookup.getAll T nodeId)))

end Store

/-! ## The same programs over plain lists -/

structure Plain (D : DecorationTypes) where
  maps : Nat → Option (List (Entry D))
  handles : Nat → Option Nat
  replies : List (Reply D)

namespace Plain

def empty : Plain D := { maps := fun _ => none, handles := fun _ => none, replies := [] }

def release (m : Nat) (handles : Nat → Option Nat) : Nat → Option Nat :=
  fun h => (handles h).filter fun borrowed => borrowed ≠ m

def wrote (p : Plain D) (m : Nat) (entries : List (Entry D)) : Plain D :=
  { p with
    maps := Function.update p.maps m (some entries)
    handles := release m p.handles }

def answered (p : Plain D) (reply : Reply D) : Plain D :=
  { p with replies := p.replies ++ [reply] }

def drop (p : Plain D) (m : Nat) : Plain D :=
  { p with maps := Function.update p.maps m none, handles := release m p.handles }

/-- One call: a write appends to the list, and a read filters it. -/
def step (p : Plain D) : Op D → Option (Plain D)
  | .new m =>
    match p.maps m with
    | some _ => none
    | none => some (p.wrote m [])
  | .insert m nodeId T value =>
    (p.maps m).bind fun entries => some (p.wrote m (entries ++ [Entry.new nodeId T value]))
  | .merge m other =>
    if m = other then none
    else
      (p.maps m).bind fun entries => (p.maps other).bind fun consumed =>
        some ((p.wrote m (entries ++ consumed)).drop other)
  | .get m T nodeId =>
    (p.maps m).bind fun entries => some (p.answered (.one T (Entries.first entries T nodeId)))
  | .getAll m T nodeId =>
    (p.maps m).bind fun entries => some (p.answered (.all T (Entries.getAll entries T nodeId)))
  | .lookup m h =>
    (p.maps m).bind fun _ => some { p with handles := Function.update p.handles h (some m) }
  | .handleFirst h T nodeId =>
    (p.handles h).bind fun m => (p.maps m).bind fun entries =>
      some (p.answered (.one T (Entries.first entries T nodeId)))
  | .handleGetAll h T nodeId =>
    (p.handles h).bind fun m => (p.maps m).bind fun entries =>
      some (p.answered (.all T (Entries.getAll entries T nodeId)))

end Plain

/-! ## The simulation -/

/-- What holds of one map of a store at time `clock`: its index is that of its entries, and was
    sealed after the last write. -/
structure Slot.Fresh (slot : Slot D) (clock : Nat) : Prop where
  wellSealed : slot.map.WellSealed
  written_lt : slot.written < clock
  sealed_after : slot.map.sealed.isSome → slot.written < slot.sealedAt

/-- A handle reads the entries that its map has now, through their own index. -/
structure Handle.Fresh (handle : Handle D) (slot : Slot D) : Prop where
  lookup_eq : handle.lookup = ⟨sealOrder slot.map.entries, slot.map.entries⟩
  sealed_after : slot.written < handle.sealedAt

/-- The store `s` holds the lists of `p`, and everything sealed in it is fresh. -/
structure Simulates (s : Store D) (p : Plain D) : Prop where
  maps : ∀ m, (s.maps m).map (fun slot => slot.map.entries) = p.maps m
  slots : ∀ m slot, s.maps m = some slot → slot.Fresh s.clock
  borrowed : ∀ h, (s.handles h).map Handle.borrowed = p.handles h
  handles : ∀ h handle, s.handles h = some handle →
    ∃ slot, s.maps handle.borrowed = some slot ∧ handle.Fresh slot
  replies : s.replies = p.replies
  readings : ∀ r ∈ s.readings, r.written < r.sealedAt

theorem simulates_empty : Simulates (Store.empty : Store D) Plain.empty where
  maps _ := rfl
  slots _ _ h := by simp [Store.empty] at h
  borrowed _ := rfl
  handles _ _ h := by simp [Store.empty] at h
  replies := rfl
  readings _ h := by simp [Store.empty] at h

theorem Slot.Fresh.mono {slot : Slot D} {c c' : Nat} (h : slot.Fresh c) (hc : c ≤ c') :
    slot.Fresh c' :=
  ⟨h.wellSealed, Nat.lt_of_lt_of_le h.written_lt hc, h.sealed_after⟩

/-- Reading a fresh slot leaves it fresh, and it answers from an index sealed after the write. -/
theorem Slot.Fresh.seal {slot : Slot D} {c : Nat} (h : slot.Fresh c) :
    (slot.seal c).Fresh (c + 1) ∧ slot.written < (slot.seal c).sealedAt := by
  have hafter : slot.written < (slot.seal c).sealedAt := by
    by_cases hs : slot.map.sealed.isSome
    · simpa [Slot.seal, hs] using h.sealed_after hs
    · simpa [Slot.seal, hs] using h.written_lt
  exact ⟨⟨DecorationMap.wellSealed_lookup h.wellSealed, Nat.lt_succ_of_lt h.written_lt,
    fun _ => hafter⟩, hafter⟩

theorem mem_release {m h : Nat} {handles : Nat → Option (Handle D)} {handle : Handle D} :
    Store.release m handles h = some handle ↔ handles h = some handle ∧ handle.borrowed ≠ m := by
  simp [Store.release, Option.filter_eq_some_iff]

theorem release_borrowed {m h : Nat} {handles : Nat → Option (Handle D)}
    {borrowed : Nat → Option Nat} (hb : (handles h).map Handle.borrowed = borrowed h) :
    (Store.release m handles h).map Handle.borrowed = Plain.release m borrowed h := by
  unfold Store.release Plain.release
  rw [← hb]
  cases handles h with
  | none => rfl
  | some handle => by_cases hm : handle.borrowed = m <;> simp [Option.filter, hm]

/-- A write of a slot with the same entries as the list, with nothing sealed. -/
theorem Simulates.wrote {s : Store D} {p : Plain D} (h : Simulates s p) (m : Nat)
    (map : DecorationMap D) (at_ : Nat) (hsealed : map.sealed = none) :
    Simulates (s.wrote m ⟨map, s.clock, at_⟩) (p.wrote m map.entries) where
  maps k := by
    by_cases hk : k = m
    · subst hk; simp [Store.wrote, Plain.wrote]
    · simpa [Store.wrote, Plain.wrote, Function.update_of_ne hk] using h.maps k
  slots k slot hslot := by
    by_cases hk : k = m
    · subst hk
      simp only [Store.wrote, Function.update_self, Option.some.injEq] at hslot
      subst hslot
      exact ⟨DecorationMap.wellSealed_of_none hsealed, Nat.lt_succ_self _, by simp [hsealed]⟩
    · simp only [Store.wrote, Function.update_of_ne hk] at hslot
      exact (h.slots k slot hslot).mono (Nat.le_succ _)
  borrowed k := release_borrowed (h.borrowed k)
  handles k handle hk := by
    obtain ⟨hk, hne⟩ := mem_release.mp hk
    obtain ⟨slot, hslot, hfresh⟩ := h.handles k handle hk
    exact ⟨slot, by simpa [Store.wrote, Function.update_of_ne hne] using hslot, hfresh⟩
  replies := h.replies
  readings := h.readings

/-- Sealing the index of one map changes no entry and ends no handle. -/
theorem Simulates.sealed {s : Store D} {p : Plain D} (h : Simulates s p) {m : Nat} {slot : Slot D}
    (hm : s.maps m = some slot) :
    Simulates
      { s with maps := Function.update s.maps m (some (slot.seal s.clock)), clock := s.clock + 1 }
      p where
  maps k := by
    by_cases hk : k = m
    · subst hk
      rw [← h.maps k, hm]
      simp [Slot.seal, DecorationMap.lookup_entries]
    · simpa [Function.update_of_ne hk] using h.maps k
  slots k slot' hslot := by
    by_cases hk : k = m
    · subst hk
      simp only [Function.update_self, Option.some.injEq] at hslot
      exact hslot ▸ (h.slots k slot hm).seal.1
    · simp only [Function.update_of_ne hk] at hslot
      exact (h.slots k slot' hslot).mono (Nat.le_succ _)
  borrowed := h.borrowed
  handles k handle hk := by
    obtain ⟨slot', hslot', hfresh⟩ := h.handles k handle hk
    by_cases hb : handle.borrowed = m
    · rw [hb, hm] at hslot'
      obtain rfl := Option.some.inj hslot'
      exact ⟨slot.seal s.clock, by simp [hb], hfresh.lookup_eq, hfresh.sealed_after⟩
    · exact ⟨slot', by simpa [Function.update_of_ne hb] using hslot', hfresh⟩
  replies := h.replies
  readings := h.readings

/-- A read of a map that answers `reply` in both programs. -/
theorem Simulates.answered {s : Store D} {p : Plain D} (h : Simulates s p) {m : Nat}
    {slot : Slot D} (hm : s.maps m = some slot) (reply : Reply D) :
    Simulates (s.answered m slot reply) (p.answered reply) where
  maps := (h.sealed hm).maps
  slots := (h.sealed hm).slots
  borrowed := h.borrowed
  handles := (h.sealed hm).handles
  replies := by simp [Store.answered, Plain.answered, h.replies]
  readings r hr := by
    rcases List.mem_append.mp hr with hr | hr
    · exact h.readings r hr
    · rw [List.mem_singleton.mp hr]
      exact (h.slots m slot hm).seal.2

/-- A read through a handle that answers `reply` in both programs. -/
theorem Simulates.handleAnswered {s : Store D} {p : Plain D} (h : Simulates s p)
    {handle : Handle D} {slot : Slot D} (hfresh : handle.Fresh slot) (reply : Reply D) :
    Simulates (s.handleAnswered handle slot reply) (p.answered reply) where
  maps := h.maps
  slots k slot' hslot := (h.slots k slot' hslot).mono (Nat.le_succ _)
  borrowed := h.borrowed
  handles := h.handles
  replies := by simp [Store.handleAnswered, Plain.answered, h.replies]
  readings r hr := by
    rcases List.mem_append.mp hr with hr | hr
    · exact h.readings r hr
    · rw [List.mem_singleton.mp hr]
      exact hfresh.sealed_after

/-- A handle is taken on a map that was just sealed. -/
theorem Simulates.lent {s : Store D} {p : Plain D} (h : Simulates s p) {m : Nat} {slot : Slot D}
    (hm : s.maps m = some slot) (k : Nat) :
    Simulates (s.lent m k slot)
      { p with handles := Function.update p.handles k (some m) } where
  maps := (h.sealed hm).maps
  slots := (h.sealed hm).slots
  borrowed j := by
    by_cases hj : j = k
    · subst hj; simp [Store.lent]
    · simpa [Store.lent, Function.update_of_ne hj] using h.borrowed j
  handles j handle hj := by
    by_cases hjk : j = k
    · subst hjk
      simp only [Store.lent, Function.update_self, Option.some.injEq] at hj
      subst hj
      have hfresh := h.slots m slot hm
      exact ⟨slot.seal s.clock, by simp [Store.lent], DecorationMap.lookup_eq hfresh.wellSealed,
        hfresh.seal.2⟩
    · simp only [Store.lent, Function.update_of_ne hjk] at hj
      exact (h.sealed hm).handles j handle hj
  replies := h.replies
  readings := h.readings

/-- The consumed map of a merge is gone, and so are the handles into it. -/
theorem Simulates.drop {s : Store D} {p : Plain D} (h : Simulates s p) (m : Nat) :
    Simulates (s.drop m) (p.drop m) where
  maps k := by
    by_cases hk : k = m
    · subst hk; simp [Store.drop, Plain.drop]
    · simpa [Store.drop, Plain.drop, Function.update_of_ne hk] using h.maps k
  slots k slot hslot := by
    by_cases hk : k = m
    · subst hk; simp [Store.drop] at hslot
    · simp only [Store.drop, Function.update_of_ne hk] at hslot
      exact h.slots k slot hslot
  borrowed k := release_borrowed (h.borrowed k)
  handles k handle hk := by
    obtain ⟨hk, hne⟩ := mem_release.mp hk
    obtain ⟨slot, hslot, hfresh⟩ := h.handles k handle hk
    exact ⟨slot, by simpa [Store.drop, Function.update_of_ne hne] using hslot, hfresh⟩
  replies := h.replies
  readings := h.readings

/-- A call on the map in `m` is a program on both sides or on neither. -/
theorem Simulates.onMap {s : Store D} {p : Plain D} (h : Simulates s p) (m : Nat)
    {f : Slot D → Option (Store D)} {g : List (Entry D) → Option (Plain D)}
    (hfg : ∀ slot, s.maps m = some slot → Option.Rel Simulates (f slot) (g slot.map.entries)) :
    Option.Rel Simulates ((s.maps m).bind f) ((p.maps m).bind g) := by
  rw [← h.maps m]
  cases hs : s.maps m with
  | none => exact .none
  | some slot => exact hfg slot hs

/-- A call through the handle `k`, whose map is still there and has not changed. -/
theorem Simulates.onHandle {s : Store D} {p : Plain D} (h : Simulates s p) (k : Nat)
    {f : Handle D → Slot D → Option (Store D)} {g : List (Entry D) → Option (Plain D)}
    (hfg : ∀ handle slot, handle.Fresh slot →
      Option.Rel Simulates (f handle slot) (g slot.map.entries)) :
    Option.Rel Simulates
      ((s.handles k).bind fun handle => (s.maps handle.borrowed).bind (f handle))
      ((p.handles k).bind fun m => (p.maps m).bind g) := by
  rw [← h.borrowed k]
  cases hk : s.handles k with
  | none => exact .none
  | some handle =>
    obtain ⟨slot, hslot, hfresh⟩ := h.handles k handle hk
    simp only [Option.map_some, Option.bind_some]
    rw [← h.maps handle.borrowed, hslot]
    exact hfg handle slot hfresh

/-- One call of a program keeps the store and the lists related. -/
theorem Simulates.step {s : Store D} {p : Plain D} (h : Simulates s p) (op : Op D) :
    Option.Rel Simulates (s.step op) (p.step op) := by
  cases op with
  | new m =>
    have hm := h.maps m
    simp only [Store.step, Plain.step, ← hm]
    cases s.maps m with
    | some slot => exact .none
    | none => exact .some (h.wrote m DecorationMap.new 0 rfl)
  | insert m nodeId T value =>
    refine h.onMap m fun slot _ => ?_
    exact .some (h.wrote m (slot.map.insert nodeId T value) slot.sealedAt rfl)
  | merge m other =>
    simp only [Store.step, Plain.step]
    split
    · exact .none
    · refine h.onMap m fun slot _ => h.onMap other fun consumed _ => ?_
      exact .some ((h.wrote m (slot.map.merge consumed.map) slot.sealedAt rfl).drop other)
  | get m T nodeId =>
    refine h.onMap m fun slot hs => ?_
    rw [DecorationMap.get_eq (h.slots m slot hs).wellSealed]
    exact .some (h.answered hs _)
  | getAll m T nodeId =>
    refine h.onMap m fun slot hs => ?_
    rw [DecorationMap.getAll_eq (h.slots m slot hs).wellSealed]
    exact .some (h.answered hs _)
  | lookup m k =>
    refine h.onMap m fun slot hs => ?_
    exact .some (h.lent hs k)
  | handleFirst k T nodeId =>
    refine h.onHandle k fun handle slot hfresh => ?_
    rw [hfresh.lookup_eq, DecorationLookup.first_sealOrder]
    exact .some (h.handleAnswered hfresh _)
  | handleGetAll k T nodeId =>
    refine h.onHandle k fun handle slot hfresh => ?_
    rw [hfresh.lookup_eq, DecorationLookup.getAll_sealOrder]
    exact .some (h.handleAnswered hfresh _)

/-- **A decoration map refines a plain list of entries.** Every program of calls runs on maps
    exactly when it runs on lists, with the same replies: `get_all` gives the entries of the node
    under the key of `T` that hold a `T`, in insertion order, those of a merged map after those
    already there. Every read answers from an index that was sealed after the last write of its
    map. Where every entry of the node under the key holds a `T`, the reply of `get` is the first
    of the replies of `get_all`. -/
theorem decorationMap_refines (ops : List (Op D)) :
    Option.Rel
        (fun s p => s.replies = p.replies ∧ (∀ r ∈ s.readings, r.written < r.sealedAt))
        (Machine.run Store.step (Store.empty : Store D) ops)
        (Machine.run Plain.step (Plain.empty : Plain D) ops) ∧
      ∀ (entries : List (Entry D)) (T : D.Ty) (nodeId : Nat),
        (∀ entry ∈ Entries.held entries nodeId (D.KEY T), entry.value.1 = T) →
          Entries.first entries T nodeId = (Entries.getAll entries T nodeId).head? := by
  refine ⟨?_, fun entries T nodeId h => Entries.first_eq_head h⟩
  have hrun := Machine.run_simulates (R := Simulates) (fun s p op h => h.step op)
    simulates_empty ops
  generalize Machine.run Store.step Store.empty ops = x at hrun ⊢
  generalize Machine.run Plain.step Plain.empty ops = y at hrun ⊢
  cases hrun with
  | none => exact .none
  | some h => exact .some ⟨h.replies, h.readings⟩

end Stiles
