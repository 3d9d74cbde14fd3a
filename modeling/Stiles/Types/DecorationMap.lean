import Stiles.General.Search

/-
  Decorations and the map that stores them (`decoration.rs`, `decoration_entry.rs`,
  `decoration_lookup.rs`, `decoration_map.rs`).

  The entries of a map sit in one list in insertion order. A read goes through `lookup`, which
  seals an index (the positions of the entries, sorted by node) unless one is sealed already, and
  then searches the index twice. `insert` and `merge` drop the seal. `WellSealed` is the invariant
  of a map that is built with these operations: what is sealed is the index of the entries.
  `Entries.getAll` and `Entries.first` read the plain list, with no index; `getAll_eq` and
  `get_eq` say that a well sealed map answers the same.
-/

namespace Stiles

structure DecorationKey where
  name : String
deriving DecidableEq, Repr

/-- The decoration types that the crates around stiles define, each with its key. Nothing forces
    two types to have different keys. -/
structure DecorationTypes where
  Ty : Type
  [decEq : DecidableEq Ty]
  KEY : Ty → DecorationKey
  Value : Ty → Type

attribute [instance] DecorationTypes.decEq

variable {D : DecorationTypes}

/-- One decoration, with the node it sits on and the key it went in under. The value is erased: it
    carries its own type, which is what stabby compares before it casts. -/
structure Entry (D : DecorationTypes) where
  nodeId : Nat
  key : DecorationKey
  value : Σ T : D.Ty, D.Value T

namespace Entry

def new (nodeId : Nat) (T : D.Ty) (value : D.Value T) : Entry D :=
  { nodeId, key := D.KEY T, value := ⟨T, value⟩ }

/-- The decoration as a `T`, or nothing if the entry holds another type. -/
def read (T : D.Ty) (e : Entry D) : Option (D.Value T) :=
  if h : e.value.1 = T then some (h ▸ e.value.2) else none

theorem read_isSome {T : D.Ty} {e : Entry D} : (e.read T).isSome = decide (e.value.1 = T) := by
  unfold read
  by_cases h : e.value.1 = T <;> simp [h]

end Entry

/-! ## Reading through an index -/

/-- The handle that a plugin searches: the entries of the host, and the positions of the entries
    sorted by node. -/
structure DecorationLookup (D : DecorationTypes) where
  order : List Nat
  entries : List (Entry D)

namespace DecorationLookup

/-- The node of the entry at `position`. Indexing is out of range for no position of an order that
    a map seals; the model reads node 0 there. -/
def at_ (lookup : DecorationLookup D) (position : Nat) : Nat :=
  (lookup.entries[position]?.map Entry.nodeId).getD 0

/-- The entries on `nodeId`, found by two binary searches of the order. -/
def on (lookup : DecorationLookup D) (nodeId : Nat) : List (Entry D) :=
  let start := Search.partitionPoint (fun position => lookup.at_ position < nodeId) lookup.order
  let stop := Search.partitionPoint (fun position => lookup.at_ position ≤ nodeId) lookup.order
  ((lookup.order.drop start).take (stop - start)).filterMap fun position =>
    lookup.entries[position]?

/-- The first entry under the key of `T`, read as a `T`. -/
def first (lookup : DecorationLookup D) (T : D.Ty) (nodeId : Nat) : Option (D.Value T) :=
  ((lookup.on nodeId).find? fun entry => entry.key = D.KEY T).bind (Entry.read T)

/-- Every entry under the key of `T` that holds a `T`. -/
def getAll (lookup : DecorationLookup D) (T : D.Ty) (nodeId : Nat) : List (D.Value T) :=
  ((lookup.on nodeId).filter fun entry => entry.key = D.KEY T).filterMap (Entry.read T)

end DecorationLookup

/-! ## The map -/

structure DecorationMap (D : DecorationTypes) where
  entries : List (Entry D)
  sealed : Option (List Nat)

/-- The index of a list of entries: their positions, sorted by node and stable. -/
def sealOrder (entries : List (Entry D)) : List Nat :=
  Search.sortedIndex (fun at_ => (entries[at_]?.map Entry.nodeId).getD 0) entries.length

namespace DecorationMap

def new : DecorationMap D := { entries := [], sealed := none }

def insert (map : DecorationMap D) (nodeId : Nat) (T : D.Ty) (value : D.Value T) :
    DecorationMap D :=
  { entries := map.entries ++ [Entry.new nodeId T value], sealed := none }

def merge (map other : DecorationMap D) : DecorationMap D :=
  { entries := map.entries ++ other.entries, sealed := none }

/-- The handle that reads this map, and the map with its index sealed. -/
def lookup (map : DecorationMap D) : DecorationLookup D × DecorationMap D :=
  let order := map.sealed.getD (sealOrder map.entries)
  ({ order, entries := map.entries }, { map with sealed := some order })

def get (map : DecorationMap D) (T : D.Ty) (nodeId : Nat) : Option (D.Value T) :=
  map.lookup.1.first T nodeId

def getAll (map : DecorationMap D) (T : D.Ty) (nodeId : Nat) : List (D.Value T) :=
  map.lookup.1.getAll T nodeId

/-- What is sealed, if anything is, is the index of the entries that are there now. -/
def WellSealed (map : DecorationMap D) : Prop :=
  ∀ order, map.sealed = some order → order = sealOrder map.entries

/-- A new map, and every map after a write, has nothing sealed. -/
theorem wellSealed_of_none {map : DecorationMap D} (h : map.sealed = none) : map.WellSealed := by
  intro order ho
  rw [h] at ho
  cases ho

/-- The handle of a well sealed map reads its entries through their own index. -/
theorem lookup_eq {map : DecorationMap D} (h : map.WellSealed) :
    map.lookup.1 = { order := sealOrder map.entries, entries := map.entries } := by
  unfold lookup
  cases hs : map.sealed with
  | none => rfl
  | some order => simp [h order hs]

theorem lookup_entries (map : DecorationMap D) : map.lookup.2.entries = map.entries := rfl

theorem wellSealed_lookup {map : DecorationMap D} (h : map.WellSealed) :
    map.lookup.2.WellSealed := by
  intro order ho
  have := lookup_eq h
  simp only [lookup, Option.some.injEq] at ho this
  rw [← ho, lookup_entries]
  exact congrArg DecorationLookup.order this

end DecorationMap

/-! ## Reading the plain list -/

namespace Entries

/-- The entries of one node under one key, in insertion order. -/
def held (entries : List (Entry D)) (nodeId : Nat) (key : DecorationKey) : List (Entry D) :=
  entries.filter fun entry => entry.nodeId = nodeId ∧ entry.key = key

def getAll (entries : List (Entry D)) (T : D.Ty) (nodeId : Nat) : List (D.Value T) :=
  (held entries nodeId (D.KEY T)).filterMap (Entry.read T)

def first (entries : List (Entry D)) (T : D.Ty) (nodeId : Nat) : Option (D.Value T) :=
  (held entries nodeId (D.KEY T)).head?.bind (Entry.read T)

theorem held_append (xs ys : List (Entry D)) (nodeId : Nat) (key : DecorationKey) :
    held (xs ++ ys) nodeId key = held xs nodeId key ++ held ys nodeId key :=
  List.filter_append ..

theorem getAll_append (xs ys : List (Entry D)) (T : D.Ty) (nodeId : Nat) :
    getAll (xs ++ ys) T nodeId = getAll xs T nodeId ++ getAll ys T nodeId := by
  simp [getAll, held_append]

/-- Where every entry under the key holds a `T`, the first read is the first of all reads. -/
theorem first_eq_head {entries : List (Entry D)} {T : D.Ty} {nodeId : Nat}
    (h : ∀ entry ∈ held entries nodeId (D.KEY T), entry.value.1 = T) :
    first entries T nodeId = (getAll entries T nodeId).head? := by
  unfold first getAll
  cases hheld : held entries nodeId (D.KEY T) with
  | nil => rfl
  | cons entry rest =>
    have hT : (entry.read T).isSome := by
      rw [Entry.read_isSome]
      exact decide_eq_true (h entry (by rw [hheld]; exact List.mem_cons_self))
    obtain ⟨v, hv⟩ := Option.isSome_iff_exists.mp hT
    simp [hv]

end Entries

/-- The two binary searches find the entries of the node, in insertion order. -/
theorem DecorationLookup.on_sealOrder (entries : List (Entry D)) (nodeId : Nat) :
    ({ order := sealOrder entries, entries } : DecorationLookup D).on nodeId =
      entries.filter fun entry => entry.nodeId = nodeId := by
  refine Search.grouped_eq_filter Entry.nodeId nodeId entries
    (fun at_ => (entries[at_]?.map Entry.nodeId).getD 0) ?_
  intro i entry h
  rw [h]
  rfl

theorem DecorationLookup.getAll_sealOrder (entries : List (Entry D)) (T : D.Ty) (nodeId : Nat) :
    ({ order := sealOrder entries, entries } : DecorationLookup D).getAll T nodeId =
      Entries.getAll entries T nodeId := by
  unfold DecorationLookup.getAll Entries.getAll Entries.held
  rw [DecorationLookup.on_sealOrder, List.filter_filter]
  congr 1
  refine List.filter_congr fun entry _ => ?_
  rw [Bool.decide_and, Bool.and_comm]

theorem DecorationLookup.first_sealOrder (entries : List (Entry D)) (T : D.Ty) (nodeId : Nat) :
    ({ order := sealOrder entries, entries } : DecorationLookup D).first T nodeId =
      Entries.first entries T nodeId := by
  unfold DecorationLookup.first Entries.first Entries.held
  rw [DecorationLookup.on_sealOrder, ← List.head?_filter, List.filter_filter]
  congr 2
  refine List.filter_congr fun entry _ => ?_
  rw [Bool.decide_and, Bool.and_comm]

/-- A well sealed map answers `get_all` from its plain list of entries. -/
theorem DecorationMap.getAll_eq {map : DecorationMap D} (h : map.WellSealed) (T : D.Ty)
    (nodeId : Nat) : map.getAll T nodeId = Entries.getAll map.entries T nodeId := by
  rw [DecorationMap.getAll, DecorationMap.lookup_eq h, DecorationLookup.getAll_sealOrder]

/-- A well sealed map answers `get` from its plain list of entries. -/
theorem DecorationMap.get_eq {map : DecorationMap D} (h : map.WellSealed) (T : D.Ty)
    (nodeId : Nat) : map.get T nodeId = Entries.first map.entries T nodeId := by
  rw [DecorationMap.get, DecorationMap.lookup_eq h, DecorationLookup.first_sealOrder]

end Stiles
