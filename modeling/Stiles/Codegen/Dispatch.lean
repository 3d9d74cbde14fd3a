import Stiles.Codegen.Leaves
import Stiles.Core.Lint

/-
  The generated `dispatch` (`generate_visitor` in `visitor.rs`), as a program.

  The body of `dispatch` is a sequence of `match kind` statements: one with an arm for each concrete
  kind, and one for each supertype that has leaves, with all of them in one arm. `dispatchOf` is
  that sequence, `execDispatch` is what it does to a pass, and `performCalls` is a list of calls on
  a pass. A call that panics unwinds out of the dispatch.

  * `execDispatch_eq`: a dispatch calls the methods of the arms that match, in order.
  * `calls_dispatchOf`: these are the method of the kind itself and those of the supertypes it is a
    leaf of (`expectedCalls`).
-/

namespace Stiles.Codegen

def concreteNodes (nodeTypes : List NodeType) : List NodeType :=
  nodeTypes.filter NodeType.isConcrete

def supertypes (nodeTypes : List NodeType) : List NodeType :=
  nodeTypes.filter NodeType.isSupertype

/-- One leading underscore goes. -/
def methodName (kind : String) : String :=
  "check_" ++ match kind.toList with
    | '_' :: stripped => String.ofList stripped
    | _ => kind

/-- An arm `"a" | "b" => diagnostics.extend(pass.method(node))`. -/
structure Arm where
  kinds : List String
  method : String
deriving DecidableEq, Repr

/-- A statement `match kind`, whose last arm is `_ => {}`. -/
abbrev MatchKind := List Arm

def concreteMatch (nodeTypes : List NodeType) : MatchKind :=
  (concreteNodes nodeTypes).map fun node => ⟨[node.kind], methodName node.kind⟩

/-- The statement of one supertype, or none where it has no leaves (the `continue`). -/
def supertypeMatch (supertype : NodeType) (leaves : List String) : List MatchKind :=
  if leaves.isEmpty then [] else [[⟨leaves, methodName supertype.kind⟩]]

def dispatchOf (fuel : Nat) (nodeTypes : List NodeType) : Option (List MatchKind) :=
  ((supertypes nodeTypes).mapM fun supertype =>
    (collectLeafSubtypes nodeTypes fuel supertype).map (supertypeMatch supertype)).map
      fun statements => concreteMatch nodeTypes :: statements.flatten

/-! ## Running a dispatch -/

section run

variable {D : DecorationTypes} {σ : Type}

/-- The methods of a pass, by name, on its state. -/
abbrev Methods (D : DecorationTypes) (σ : Type) :=
  String → DecoratedNode D → σ → Except Panic (List Diagnostic) × σ

/-- `diagnostics.extend(pass.method(node))`, and then the rest. -/
def extend (pass : Methods D σ) (node : DecoratedNode D) (method : String)
    (rest : σ → List Diagnostic → Except Panic (List Diagnostic) × σ) (state : σ)
    (diagnostics : List Diagnostic) : Except Panic (List Diagnostic) × σ :=
  match pass method node state with
  | (.ok found, state) => rest state (diagnostics ++ found)
  | (.error panic, state) => (.error panic, state)

def execDispatch (pass : Methods D σ) (node : DecoratedNode D) :
    List MatchKind → σ → List Diagnostic → Except Panic (List Diagnostic) × σ
  | [], state, diagnostics => (.ok diagnostics, state)
  | arms :: rest, state, diagnostics =>
    match arms.find? fun arm => arm.kinds.contains node.kind with
    | some arm => extend pass node arm.method (execDispatch pass node rest) state diagnostics
    | none => execDispatch pass node rest state diagnostics

/-- The calls, one after the other, with their diagnostics in order. -/
def performCalls (pass : Methods D σ) (node : DecoratedNode D) :
    List String → σ → List Diagnostic → Except Panic (List Diagnostic) × σ
  | [], state, diagnostics => (.ok diagnostics, state)
  | method :: rest, state, diagnostics =>
    extend pass node method (performCalls pass node rest) state diagnostics

/-- The methods that a dispatch calls for a node of the kind. -/
def callsFor (kind : String) (statements : List MatchKind) : List String :=
  statements.filterMap fun arms => (arms.find? fun arm => arm.kinds.contains kind).map Arm.method

theorem execDispatch_eq (pass : Methods D σ) (node : DecoratedNode D)
    (statements : List MatchKind) (state : σ) (diagnostics : List Diagnostic) :
    execDispatch pass node statements state diagnostics
      = performCalls pass node (callsFor node.kind statements) state diagnostics := by
  induction statements generalizing state diagnostics with
  | nil => rfl
  | cons arms rest ih =>
    have hrest : execDispatch pass node rest = performCalls pass node (callsFor node.kind rest) :=
      funext fun state => funext fun diagnostics => ih state diagnostics
    rw [execDispatch, callsFor, List.filterMap_cons]
    cases hfind : arms.find? fun arm => arm.kinds.contains node.kind with
    | none => exact ih state diagnostics
    | some arm =>
      rw [hrest]
      rfl

end run

/-! ## The calls of a generated dispatch -/

open scoped Classical in
/-- The method of the kind, if it is named and has no subtypes, and then that of every supertype
    that leads to it, in the order of the list. -/
noncomputable def expectedCalls (nodeTypes : List NodeType) (kind : String) : List String :=
  if IsConcrete nodeTypes kind then
    methodName kind ::
      ((supertypes nodeTypes).filter fun supertype =>
        decide (Relation.TransGen (Contains nodeTypes) supertype.kind kind)).map
          fun supertype => methodName supertype.kind
  else []

theorem mem_concreteNodes {nodeTypes : List NodeType} {node : NodeType} :
    node ∈ concreteNodes nodeTypes ↔ node ∈ nodeTypes ∧ node.isConcrete = true :=
  List.mem_filter

theorem mem_supertypes {nodeTypes : List NodeType} {node : NodeType} :
    node ∈ supertypes nodeTypes ↔ node ∈ nodeTypes ∧ node.isSupertype = true :=
  List.mem_filter

theorem find_arm_map {nodes : List NodeType} {kind : String} :
    ((nodes.map fun node => (⟨[node.kind], methodName node.kind⟩ : Arm)).find?
      fun arm => arm.kinds.contains kind).map Arm.method
      = if kind ∈ nodes.map NodeType.kind then some (methodName kind) else none := by
  induction nodes with
  | nil => rfl
  | cons node nodes ih =>
    rw [List.map_cons, List.find?_cons, List.map_cons]
    by_cases hkind : node.kind = kind
    · simp [hkind]
    · have hne : ¬kind = node.kind := fun h => hkind h.symm
      have hcontains : ([node.kind].contains kind) = false := by simp [hne]
      rw [hcontains]
      simpa [hne] using ih

theorem callsFor_concreteMatch (nodeTypes : List NodeType) (kind : String) :
    callsFor kind [concreteMatch nodeTypes]
      = if kind ∈ (concreteNodes nodeTypes).map NodeType.kind then [methodName kind] else [] := by
  rw [callsFor, List.filterMap_cons, List.filterMap_nil, concreteMatch, find_arm_map]
  by_cases hkind : kind ∈ (concreteNodes nodeTypes).map NodeType.kind
  · rw [if_pos hkind, if_pos hkind]
  · rw [if_neg hkind, if_neg hkind]

theorem isConcrete_iff {nodeTypes : List NodeType} {kind : String} :
    IsConcrete nodeTypes kind ↔ kind ∈ (concreteNodes nodeTypes).map NodeType.kind := by
  rw [IsConcrete, List.mem_map]
  constructor
  · rintro ⟨node, hnode, hconcrete, hkind⟩
    exact ⟨node, mem_concreteNodes.mpr ⟨hnode, hconcrete⟩, hkind⟩
  · rintro ⟨node, hnode, hkind⟩
    obtain ⟨hmem, hconcrete⟩ := mem_concreteNodes.mp hnode
    exact ⟨node, hmem, hconcrete, hkind⟩

theorem callsFor_supertypeMatch (supertype : NodeType) (leaves : List String) (kind : String) :
    callsFor kind (supertypeMatch supertype leaves)
      = if kind ∈ leaves then [methodName supertype.kind] else [] := by
  rw [supertypeMatch]
  cases leaves with
  | nil => rfl
  | cons leaf leaves =>
    by_cases hkind : kind ∈ leaf :: leaves <;> simp [callsFor, hkind]

theorem callsFor_append (kind : String) (xs ys : List MatchKind) :
    callsFor kind (xs ++ ys) = callsFor kind xs ++ callsFor kind ys :=
  List.filterMap_append

/-- The statements of the supertypes call the method of each that has the kind as a leaf. -/
theorem callsFor_statements {nodeTypes nodes : List NodeType} {fuel : Nat} {kind : String}
    {statements : List (List MatchKind)} (leads : NodeType → Bool)
    (hleads : ∀ node ∈ nodes, ∀ leaves, collectLeafSubtypes nodeTypes fuel node = some leaves →
      (kind ∈ leaves ↔ leads node = true))
    (h : (nodes.mapM fun supertype => (collectLeafSubtypes nodeTypes fuel supertype).map
      (supertypeMatch supertype)) = some statements) :
    callsFor kind statements.flatten
      = (nodes.filter leads).map fun supertype => methodName supertype.kind := by
  induction nodes generalizing statements with
  | nil =>
    have hnil : statements = [] := (Option.some.inj h).symm
    rw [hnil]
    rfl
  | cons node nodes ih =>
    rw [List.mapM_cons] at h
    obtain ⟨first, hfirst, hrest⟩ := Option.bind_eq_some_iff.mp h
    obtain ⟨others, hothers, hpure⟩ := Option.bind_eq_some_iff.mp hrest
    obtain ⟨leaves, hleaves, rfl⟩ := Option.map_eq_some_iff.mp hfirst
    have hcons : supertypeMatch node leaves :: others = statements := Option.some.inj hpure
    have htail := ih (fun n hn => hleads n (List.mem_cons_of_mem node hn)) hothers
    have hnode := hleads node List.mem_cons_self leaves hleaves
    rw [← hcons, List.flatten_cons, callsFor_append, callsFor_supertypeMatch, htail,
      List.filter_cons]
    by_cases hkind : kind ∈ leaves
    · rw [if_pos hkind, if_pos (hnode.mp hkind)]
      rfl
    · rw [if_neg hkind, if_neg (fun hl => hkind (hnode.mpr hl))]
      rfl

theorem calls_dispatchOf {nodeTypes : List NodeType} (hunique : (kinds nodeTypes).Nodup)
    {fuel : Nat} {statements : List MatchKind} (h : dispatchOf fuel nodeTypes = some statements)
    (kind : String) : callsFor kind statements = expectedCalls nodeTypes kind := by
  classical
  obtain ⟨perSupertype, hmap, rfl⟩ := Option.map_eq_some_iff.mp h
  have hleads : ∀ node ∈ supertypes nodeTypes, ∀ leaves,
      collectLeafSubtypes nodeTypes fuel node = some leaves →
      (kind ∈ leaves ↔ decide (Relation.TransGen (Contains nodeTypes) node.kind kind ∧
        IsConcrete nodeTypes kind) = true) := by
    intro node hnode leaves hleaves
    obtain ⟨hmem, hsuper⟩ := mem_supertypes.mp hnode
    have hnamed := (Bool.and_eq_true_iff.mp hsuper).1
    rw [mem_leaves hunique hmem hnamed hleaves, decide_eq_true_iff]
  have hsupers := callsFor_statements _ hleads hmap
  rw [← List.singleton_append, callsFor_append, callsFor_concreteMatch, hsupers, expectedCalls]
  by_cases hconcrete : IsConcrete nodeTypes kind
  · rw [if_pos hconcrete, if_pos (isConcrete_iff.mp hconcrete)]
    simp [hconcrete]
  · rw [if_neg hconcrete, if_neg (fun hmem => hconcrete (isConcrete_iff.mpr hmem))]
    simp [hconcrete]

/-! ## When there is a dispatch -/

theorem collectLeafSubtypes_mono {nodeTypes : List NodeType} {m n : Nat} (hmn : m ≤ n)
    {node : NodeType} {leaves : List String}
    (h : collectLeafSubtypes nodeTypes m node = some leaves) :
    collectLeafSubtypes nodeTypes n node = some leaves :=
  Fuel.fuelled_mono (collectBody_recurses nodeTypes) hmn h

theorem dispatchOf_isSome {fuel : Nat} {nodeTypes : List NodeType} :
    (dispatchOf fuel nodeTypes).isSome
      ↔ ∀ node ∈ supertypes nodeTypes, (collectLeafSubtypes nodeTypes fuel node).isSome := by
  rw [dispatchOf, Option.isSome_map, Fuel.isSome_mapM]
  refine forall₂_congr fun node _ => ?_
  rw [Option.isSome_map]

theorem dispatchOf_mono {nodeTypes : List NodeType} {m n : Nat} (hmn : m ≤ n)
    {statements : List MatchKind} (h : dispatchOf m nodeTypes = some statements) :
    dispatchOf n nodeTypes = some statements := by
  have hsome := dispatchOf_isSome.mp (Option.isSome_of_mem h)
  rw [← h, dispatchOf, dispatchOf]
  congr 1
  apply Fuel.mapM_congr
  intro node hnode
  obtain ⟨leaves, hleaves⟩ := Option.isSome_iff_exists.mp (hsome node hnode)
  rw [hleaves, collectLeafSubtypes_mono hmn hleaves]

/-- A dispatch is generated exactly from lists in which no kind contains itself. -/
theorem dispatchOf_isSome_iff_acyclic {nodeTypes : List NodeType}
    (hunique : (kinds nodeTypes).Nodup) :
    (∃ fuel, (dispatchOf fuel nodeTypes).isSome) ↔ Acyclic nodeTypes := by
  rw [← collect_ends_iff_acyclic hunique]
  constructor
  · rintro ⟨fuel, hsome⟩ node hnode hsuper
    exact ⟨fuel, dispatchOf_isSome.mp hsome node (mem_supertypes.mpr ⟨hnode, hsuper⟩)⟩
  · intro hends
    obtain ⟨fuel, hfuel⟩ := Fuel.exists_fuel (collectBody_recurses nodeTypes)
      (supertypes nodeTypes) (fun node hnode =>
        hends node (mem_supertypes.mp hnode).1 (mem_supertypes.mp hnode).2)
    exact ⟨fuel, dispatchOf_isSome.mpr hfuel⟩

end Stiles.Codegen
