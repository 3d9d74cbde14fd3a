import Stiles.General.KeyedMerge

/-
  The merge of the `node-types.json` of several grammars of one language (`merge.rs`).

  The text of a grammar is read and written by serde: `Serde.fromStr` and `Serde.toString` stand for
  `serde_json::from_str` and `serde_json::to_string` on the entries. `mergeNodeTypes` is the loop
  over the entries that were read.

  * `mergeNodeTypes_eq_union`: on lists that repeat no subtype the merge is the union by first
    appearance.
  * `merge_laws`: the merge is idempotent and associative, and holds exactly the kinds and the
    subtype references of its grammars.
  * `kinds_mergeNodeTypes`, `mem_subtypes_mergeNodeTypes`: the kinds and references of the merge of
    any lists.
-/

namespace Stiles.Codegen

structure SubtypeRef where
  kind : String
  named : Bool
deriving DecidableEq, Repr

structure NodeType where
  kind : String
  named : Bool
  subtypes : List SubtypeRef
deriving DecidableEq, Repr

/-- What `find` compares: the reference by which other entries name this one. -/
def NodeType.key (node : NodeType) : SubtypeRef :=
  ⟨node.kind, node.named⟩

/-- One turn of the inner loop: into the first entry with the kind and `named` of `node`, or else
    at the end. -/
def mergeNode : List NodeType → NodeType → List NodeType
  | [], node => [node]
  | existing :: merged, node =>
    if existing.kind = node.kind ∧ existing.named = node.named then
      { existing with subtypes := KeyedMerge.appendNew existing.subtypes node.subtypes } :: merged
    else
      existing :: mergeNode merged node

def mergeNodeTypes (grammars : List (List NodeType)) : List NodeType :=
  grammars.foldl (fun merged grammar => grammar.foldl mergeNode merged) []

/-- `node-types.json` as serde reads and writes it. -/
structure Serde (ε : Type) where
  fromStr : String → Except ε (List NodeType)
  toString : List NodeType → String

/-- `merge_node_types`: the first grammar that does not parse ends it. -/
def mergeJson {ε : Type} (serde : Serde ε) (grammars : List String) : Except ε String :=
  (grammars.mapM serde.fromStr).map fun nodeTypes => serde.toString (mergeNodeTypes nodeTypes)

/-! ## The merge as a union of keyed entries -/

def NodeType.entry (node : NodeType) : SubtypeRef × List SubtypeRef :=
  (node.key, node.subtypes)

theorem entry_injective : Function.Injective NodeType.entry := by
  intro m n h
  cases m
  cases n
  simpa [NodeType.entry, NodeType.key, and_assoc] using h

theorem map_entry_mergeNode (merged : List NodeType) (node : NodeType) :
    (mergeNode merged node).map NodeType.entry
      = KeyedMerge.absorb (merged.map NodeType.entry) node.entry := by
  induction merged with
  | nil => rfl
  | cons existing merged ih =>
    have hkey : (existing.kind = node.kind ∧ existing.named = node.named)
        ↔ existing.entry.1 = node.entry.1 := (SubtypeRef.mk.injEq _ _ _ _).symm ▸ Iff.rfl
    rw [mergeNode, List.map_cons, KeyedMerge.absorb]
    by_cases h : existing.entry.1 = node.entry.1
    · rw [if_pos (hkey.mpr h), if_pos h]
      rfl
    · rw [if_neg (fun hk => h (hkey.mp hk)), if_neg h, ← ih]
      rfl

theorem map_entry_foldl_mergeNode (nodes merged : List NodeType) :
    (nodes.foldl mergeNode merged).map NodeType.entry
      = (nodes.map NodeType.entry).foldl KeyedMerge.absorb (merged.map NodeType.entry) := by
  induction nodes generalizing merged with
  | nil => rfl
  | cons node nodes ih =>
    show (nodes.foldl mergeNode (mergeNode merged node)).map NodeType.entry = _
    rw [ih, map_entry_mergeNode]
    rfl

theorem mergeNodeTypes_eq_foldl (grammars : List (List NodeType)) :
    mergeNodeTypes grammars = grammars.flatten.foldl mergeNode [] :=
  List.foldl_flatten.symm

theorem map_entry_mergeNodeTypes (grammars : List (List NodeType)) :
    (mergeNodeTypes grammars).map NodeType.entry
      = (grammars.flatten.map NodeType.entry).foldl KeyedMerge.absorb [] := by
  rw [mergeNodeTypes_eq_foldl, map_entry_foldl_mergeNode]
  rfl

/-- The kinds of a list, each with `named`. -/
def kinds (nodes : List NodeType) : List SubtypeRef :=
  nodes.map NodeType.key

theorem keys_entry (nodes : List NodeType) :
    KeyedMerge.keys (nodes.map NodeType.entry) = kinds nodes := by
  rw [KeyedMerge.keys, List.map_map]
  rfl

theorem kinds_mergeNodeTypes (grammars : List (List NodeType)) :
    kinds (mergeNodeTypes grammars) = (kinds grammars.flatten).eraseDups := by
  rw [← keys_entry, map_entry_mergeNodeTypes, KeyedMerge.keys_foldl_absorb, keys_entry]

/-- The references that the entries of one kind hold. -/
def subtypesOf (key : SubtypeRef) (nodes : List NodeType) : List SubtypeRef :=
  (nodes.filter fun node => node.key = key).flatMap NodeType.subtypes

theorem refsOf_entry (key : SubtypeRef) (nodes : List NodeType) :
    KeyedMerge.refsOf key (nodes.map NodeType.entry) = subtypesOf key nodes := by
  rw [KeyedMerge.refsOf, List.filter_map, List.flatMap_map]
  rfl

theorem mem_subtypes_mergeNodeTypes {grammars : List (List NodeType)} {key : SubtypeRef}
    {ref : SubtypeRef} :
    ref ∈ subtypesOf key (mergeNodeTypes grammars) ↔ ref ∈ subtypesOf key grammars.flatten := by
  rw [← refsOf_entry, map_entry_mergeNodeTypes, KeyedMerge.mem_refsOf_foldl_absorb, refsOf_entry]

/-! ## Lists that repeat nothing -/

/-- The `node-types.json` of a grammar: each kind once, and no subtype of a kind twice. -/
structure NodeTypes where
  entries : List NodeType
  unique : (kinds entries).Nodup
  simple : ∀ node ∈ entries, node.subtypes.Nodup

theorem mergeNodeTypes_eq_union {grammars : List (List NodeType)}
    (h : ∀ node ∈ grammars.flatten, node.subtypes.Nodup) :
    (mergeNodeTypes grammars).map NodeType.entry
      = KeyedMerge.union (grammars.flatten.map NodeType.entry) := by
  rw [map_entry_mergeNodeTypes]
  apply KeyedMerge.foldl_absorb
  intro e he
  obtain ⟨node, hnode, rfl⟩ := List.mem_map.mp he
  exact h node hnode

theorem simple_flatten (grammars : List NodeTypes) :
    ∀ node ∈ (grammars.map NodeTypes.entries).flatten, node.subtypes.Nodup := by
  intro node hnode
  obtain ⟨entries, hentries, hmem⟩ := List.mem_flatten.mp hnode
  obtain ⟨grammar, _, rfl⟩ := List.mem_map.mp hentries
  exact grammar.simple node hmem

/-- The merge keeps what makes a list well formed. -/
def NodeTypes.merge (grammars : List NodeTypes) : NodeTypes where
  entries := mergeNodeTypes (grammars.map NodeTypes.entries)
  unique := by
    rw [kinds_mergeNodeTypes]
    exact KeyedMerge.nodup_eraseDups _
  simple := by
    intro node hnode
    have hunion : node.entry ∈ KeyedMerge.union
        ((grammars.map NodeTypes.entries).flatten.map NodeType.entry) := by
      rw [← mergeNodeTypes_eq_union (simple_flatten grammars)]
      exact List.mem_map_of_mem hnode
    exact KeyedMerge.nodup_refs_union _ _ hunion

/-! ## The laws of the merge -/

theorem merge_self (a : NodeTypes) :
    mergeNodeTypes [a.entries, a.entries] = mergeNodeTypes [a.entries] := by
  apply (List.map_injective_iff.mpr entry_injective)
  have htwice := mergeNodeTypes_eq_union (simple_flatten [a, a])
  have honce := mergeNodeTypes_eq_union (simple_flatten [a])
  simp only [List.map_cons, List.map_nil, List.flatten_cons, List.flatten_nil, List.append_nil,
    List.map_append] at htwice honce
  rw [htwice, honce, KeyedMerge.union_append_self]

theorem merge_left (a b c : NodeTypes) :
    mergeNodeTypes [mergeNodeTypes [a.entries, b.entries], c.entries]
      = mergeNodeTypes [a.entries, b.entries, c.entries] := by
  apply (List.map_injective_iff.mpr entry_injective)
  have hinner := mergeNodeTypes_eq_union (simple_flatten [a, b])
  have houter := mergeNodeTypes_eq_union (simple_flatten [NodeTypes.merge [a, b], c])
  have hflat := mergeNodeTypes_eq_union (simple_flatten [a, b, c])
  simp only [NodeTypes.merge, List.map_cons, List.map_nil, List.flatten_cons, List.flatten_nil,
    List.append_nil, List.map_append] at hinner houter hflat
  rw [houter, hinner, KeyedMerge.union_append_left, List.append_assoc, hflat]

theorem merge_right (a b c : NodeTypes) :
    mergeNodeTypes [a.entries, mergeNodeTypes [b.entries, c.entries]]
      = mergeNodeTypes [a.entries, b.entries, c.entries] := by
  apply (List.map_injective_iff.mpr entry_injective)
  have hinner := mergeNodeTypes_eq_union (simple_flatten [b, c])
  have houter := mergeNodeTypes_eq_union (simple_flatten [a, NodeTypes.merge [b, c]])
  have hflat := mergeNodeTypes_eq_union (simple_flatten [a, b, c])
  simp only [NodeTypes.merge, List.map_cons, List.map_nil, List.flatten_cons, List.flatten_nil,
    List.append_nil, List.map_append] at hinner houter hflat
  rw [houter, hinner, KeyedMerge.union_append_right, hflat]

theorem subtypes_mergeNodeTypes (grammars : List NodeTypes) :
    ∀ node ∈ mergeNodeTypes (grammars.map NodeTypes.entries), node.subtypes
      = (subtypesOf node.key (grammars.map NodeTypes.entries).flatten).eraseDups := by
  intro node hnode
  have hunion : node.entry ∈ KeyedMerge.union
      ((grammars.map NodeTypes.entries).flatten.map NodeType.entry) := by
    rw [← mergeNodeTypes_eq_union (simple_flatten grammars)]
    exact List.mem_map_of_mem hnode
  obtain ⟨key, _, hentry⟩ := List.mem_map.mp hunion
  have hkey : key = node.key := congrArg Prod.fst hentry
  have hrefs := congrArg Prod.snd hentry
  rw [hkey, refsOf_entry] at hrefs
  exact hrefs.symm

/-- The merge is idempotent and associative. It holds each kind of its grammars once, in order of
    first appearance, with each reference any grammar gives the kind once, in order of first
    appearance. -/
theorem merge_laws :
    (∀ a : NodeTypes, mergeNodeTypes [a.entries, a.entries] = mergeNodeTypes [a.entries]) ∧
    (∀ a b c : NodeTypes,
      mergeNodeTypes [mergeNodeTypes [a.entries, b.entries], c.entries]
          = mergeNodeTypes [a.entries, mergeNodeTypes [b.entries, c.entries]] ∧
        mergeNodeTypes [a.entries, mergeNodeTypes [b.entries, c.entries]]
          = mergeNodeTypes [a.entries, b.entries, c.entries]) ∧
    ∀ grammars : List NodeTypes,
      kinds (mergeNodeTypes (grammars.map NodeTypes.entries))
          = (kinds (grammars.map NodeTypes.entries).flatten).eraseDups ∧
        ∀ node ∈ mergeNodeTypes (grammars.map NodeTypes.entries), node.subtypes
          = (subtypesOf node.key (grammars.map NodeTypes.entries).flatten).eraseDups := by
  refine ⟨merge_self, ?_, ?_⟩
  · intro a b c
    exact ⟨(merge_left a b c).trans (merge_right a b c).symm, merge_right a b c⟩
  · intro grammars
    exact ⟨kinds_mergeNodeTypes _, subtypes_mergeNodeTypes grammars⟩

def typescriptTypes : NodeTypes where
  entries :=
    [⟨"primary_expression", true, [⟨"identifier", true⟩, ⟨"number", true⟩]⟩,
     ⟨"identifier", true, []⟩,
     ⟨"number", true, []⟩]
  unique := by decide
  simple := by decide

/-- Has an expression more, and its kinds in another order. -/
def tsxTypes : NodeTypes where
  entries :=
    [⟨"identifier", true, []⟩,
     ⟨"primary_expression", true, [⟨"jsx_element", true⟩, ⟨"identifier", true⟩]⟩,
     ⟨"jsx_element", true, []⟩]
  unique := by decide
  simple := by decide

theorem merge_laws_tsx :
    mergeNodeTypes [typescriptTypes.entries, tsxTypes.entries] =
        [⟨"primary_expression", true,
          [⟨"identifier", true⟩, ⟨"number", true⟩, ⟨"jsx_element", true⟩]⟩,
         ⟨"identifier", true, []⟩, ⟨"number", true, []⟩, ⟨"jsx_element", true, []⟩] ∧
      mergeNodeTypes [mergeNodeTypes [typescriptTypes.entries, tsxTypes.entries],
          tsxTypes.entries] =
        mergeNodeTypes [typescriptTypes.entries, mergeNodeTypes [tsxTypes.entries]] := by
  obtain ⟨hself, hassoc, -⟩ := merge_laws
  refine ⟨by decide, ?_⟩
  rw [(hassoc _ _ _).1, hself]

end Stiles.Codegen
