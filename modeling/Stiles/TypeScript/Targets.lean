import Mathlib.Algebra.Group.Nat.Defs
import Stiles.Types.Cardinality

/-
  The nodes that the TypeScript provider asks tsrs about (`provider.rs` of stiles-typescript).

  One walk over the named nodes collects three lists of targets: identifiers, function declarations
  and module specifiers. `decorate` then goes over the lists, one after the other. What tsrs answers
  is arbitrary and may depend on the state of its checker.

  An identifier and a declaration mark themselves, the first with the types of values and the second
  with its signature; an import or export marks the child that holds the specifier with its source.

  * `collectTargets_eq`: the targets are those of the visited nodes, in pre-order.
  * `nodup_marks`: no two targets record one type on one node.
  * `oneOfEach_decorate`: the map that the provider makes holds at most one decoration of each type
    for each node, whatever tsrs answers.
-/

namespace Stiles.TypeScriptProvider

/-- The node kinds that name a value the checker can type. -/
def TYPED_KINDS : List String :=
  ["identifier", "property_identifier", "shorthand_property_identifier"]

/-- The node kinds that declare a function or method with a signature. -/
def FUNCTION_KINDS : List String :=
  ["function_declaration", "generator_function_declaration", "function_signature",
    "method_definition", "method_signature", "abstract_method_signature"]

/-- The node kinds whose `source` field names a module. -/
def MODULE_REFERENCE_KINDS : List String := ["import_statement", "export_statement"]

/-- A node that gets a decoration, and the byte range that tsrs finds it by. -/
structure Target where
  nodeId : Nat
  start : Nat
  stop : Nat
  start_lt : start < 2 ^ 32
  stop_lt : stop < 2 ^ 32
deriving Repr

instance : DecidableEq Target := fun a b =>
  decidable_of_iff (a.nodeId = b.nodeId ∧ a.start = b.start ∧ a.stop = b.stop)
    (by cases a; cases b; simp)

/-- The target for `node`, found in tsrs by the range of `foundBy`. -/
def Target.new (node foundBy : SyntaxTree) : Option Target :=
  if hstart : foundBy.info.startByte < 2 ^ 32 then
    if hstop : foundBy.info.endByte < 2 ^ 32 then
      some
        { nodeId := node.id
          start := foundBy.info.startByte
          stop := foundBy.info.endByte
          start_lt := hstart
          stop_lt := hstop }
    else none
  else none

/-- Every node of a file that the provider decorates, by what it asks about it. -/
structure Targets where
  values : List Target
  functions : List Target
  modules : List Target
deriving DecidableEq, Repr

namespace Targets

def default : Targets := ⟨[], [], []⟩

def append (first second : Targets) : Targets :=
  ⟨first.values ++ second.values, first.functions ++ second.functions,
    first.modules ++ second.modules⟩

end Targets

/-! ## Collecting -/

def valueTarget (node : SyntaxTree) : Option Target :=
  if TYPED_KINDS.contains node.kind then Target.new node node else none

def functionTarget (fields : FieldNames) (node : SyntaxTree) : Option Target :=
  if FUNCTION_KINDS.contains node.kind then
    (node.childByFieldName fields "name").bind fun name => Target.new node name
  else none

def moduleTarget (fields : FieldNames) (node : SyntaxTree) : Option Target :=
  if MODULE_REFERENCE_KINDS.contains node.kind then
    (node.childByFieldName fields "source").bind fun source => Target.new source source
  else none

/-- The targets of the node itself, pushed before its children are walked. -/
def pushOwnTargets (fields : FieldNames) (node : SyntaxTree) (targets : Targets) : Targets :=
  { values := targets.values ++ (valueTarget node).toList
    functions := targets.functions ++ (functionTarget fields node).toList
    modules := targets.modules ++ (moduleTarget fields node).toList }

mutual

def collectTargets (fields : FieldNames) : SyntaxTree → Targets → Targets
  | .node info children, targets =>
    collectTargetsOfNamed fields children (pushOwnTargets fields (.node info children) targets)

def collectTargetsOfNamed (fields : FieldNames) : List SyntaxTree → Targets → Targets
  | [], targets => targets
  | child :: rest, targets =>
    collectTargetsOfNamed fields rest
      (if child.named then collectTargets fields child targets else targets)

end

/-! ## Decorating -/

/-- The types that the provider records. -/
inductive TypeScriptDecoration where
  | TypeText
  | ResolvedType
  | StringUnion
  | FnSignature
  | ImportSource
deriving DecidableEq, Repr

/-- The decorations of the crate, each with its key and its values. -/
@[reducible] def typeScriptDecorations (KEY : TypeScriptDecoration → DecorationKey)
    (Value : TypeScriptDecoration → Type) : DecorationTypes :=
  { Ty := TypeScriptDecoration, KEY, Value }

/-- What tsrs answers about a source file. -/
structure Answers (Value : TypeScriptDecoration → Type) (Checker Token Declaration Ty : Type) where
  checker : Checker
  getTouchingPropertyName : Nat → Token
  getTouchingToken : Nat → Token
  /-- The source offset of the end of a token. -/
  sourceOffset : Token → Option Nat
  getTypeAtLocation : Token → Checker → Ty × Checker
  typeToString : Ty → Checker → Value .TypeText × Checker
  valueDeclaration : Token → Checker → Option Declaration × Checker
  resolvedType : Ty → Option Declaration → Checker → Value .ResolvedType × Checker
  stringUnion : Ty → Option (Value .StringUnion)
  parent : Token → Option Declaration
  fnSignature : Declaration → Checker → Option (Value .FnSignature) × Checker
  isStringLiteralLike : Token → Bool
  importSource : Token → Value .ImportSource

variable {KEY : TypeScriptDecoration → DecorationKey} {Value : TypeScriptDecoration → Type}
  {Checker Token Declaration Ty : Type}

def decorateValue (answers : Answers Value Checker Token Declaration Ty)
    (state : Checker × DecorationMap (typeScriptDecorations KEY Value)) (target : Target) :
    Checker × DecorationMap (typeScriptDecorations KEY Value) :=
  let token := answers.getTouchingPropertyName target.start
  if answers.sourceOffset token ≠ some target.stop then state
  else
    let (ty, checker) := answers.getTypeAtLocation token state.1
    let (text, checker) := answers.typeToString ty checker
    let decorations := state.2.insert target.nodeId .TypeText text
    let (declaration, checker) := answers.valueDeclaration token checker
    let (resolved, checker) := answers.resolvedType ty declaration checker
    let decorations := decorations.insert target.nodeId .ResolvedType resolved
    (checker, decorations.insertAnswer target.nodeId .StringUnion (answers.stringUnion ty))

def decorateFunction (answers : Answers Value Checker Token Declaration Ty)
    (state : Checker × DecorationMap (typeScriptDecorations KEY Value)) (target : Target) :
    Checker × DecorationMap (typeScriptDecorations KEY Value) :=
  let token := answers.getTouchingPropertyName target.start
  if answers.sourceOffset token ≠ some target.stop then state
  else
    match answers.parent token with
    | none => state
    | some declaration =>
      let (signature, checker) := answers.fnSignature declaration state.1
      (checker, state.2.insertAnswer target.nodeId .FnSignature signature)

def decorateModule (answers : Answers Value Checker Token Declaration Ty)
    (state : Checker × DecorationMap (typeScriptDecorations KEY Value)) (target : Target) :
    Checker × DecorationMap (typeScriptDecorations KEY Value) :=
  let token := answers.getTouchingToken target.start
  if answers.sourceOffset token ≠ some target.stop ∨ ¬ answers.isStringLiteralLike token then state
  else (state.1, state.2.insert target.nodeId .ImportSource (answers.importSource token))

/-- What `decorate` records for a file that the program holds. -/
def decorate (fields : FieldNames) (answers : Answers Value Checker Token Declaration Ty)
    (tree : SyntaxTree) : DecorationMap (typeScriptDecorations KEY Value) :=
  let targets := collectTargets fields tree Targets.default
  let state := targets.values.foldl (decorateValue answers) (answers.checker, DecorationMap.new)
  let state := targets.functions.foldl (decorateFunction answers) state
  (targets.modules.foldl (decorateModule answers) state).2

/-! ## The targets of a walk -/

variable {fields : FieldNames}

/-- The targets of the nodes, in order. -/
def targetsOf (fields : FieldNames) (nodes : List SyntaxTree) : Targets :=
  { values := nodes.flatMap fun node => (valueTarget node).toList
    functions := nodes.flatMap fun node => (functionTarget fields node).toList
    modules := nodes.flatMap fun node => (moduleTarget fields node).toList }

theorem targetsOf_append (first second : List SyntaxTree) :
    targetsOf fields (first ++ second) =
      (targetsOf fields first).append (targetsOf fields second) := by
  unfold targetsOf Targets.append
  rw [List.flatMap_append, List.flatMap_append, List.flatMap_append]

theorem Targets.append_assoc (first second third : Targets) :
    (first.append second).append third = first.append (second.append third) := by
  unfold Targets.append
  rw [List.append_assoc, List.append_assoc, List.append_assoc]

theorem Targets.append_default (targets : Targets) :
    targets.append Targets.default = targets := by
  unfold Targets.append Targets.default
  rw [List.append_nil, List.append_nil, List.append_nil]

theorem pushOwnTargets_eq (node : SyntaxTree) (targets : Targets) :
    pushOwnTargets fields node targets = targets.append (targetsOf fields [node]) := by
  unfold pushOwnTargets targetsOf Targets.append
  rw [List.flatMap_singleton, List.flatMap_singleton, List.flatMap_singleton]

mutual

/-- The targets are those of the visited nodes, in pre-order. -/
theorem collectTargets_eq (t : SyntaxTree) (targets : Targets) :
    collectTargets fields t targets = targets.append (targetsOf fields t.visited) := by
  match t with
  | .node info children =>
    unfold collectTargets SyntaxTree.visited
    rw [collectTargetsOfNamed_eq children, pushOwnTargets_eq, Targets.append_assoc,
      ← targetsOf_append, List.singleton_append]

theorem collectTargetsOfNamed_eq (ts : List SyntaxTree) (targets : Targets) :
    collectTargetsOfNamed fields ts targets =
      targets.append (targetsOf fields (SyntaxTree.visitedAll ts)) := by
  match ts with
  | [] => exact (Targets.append_default targets).symm
  | t :: ts =>
    unfold collectTargetsOfNamed SyntaxTree.visitedAll
    rw [collectTargetsOfNamed_eq ts, targetsOf_append]
    split
    · rw [collectTargets_eq t, Targets.append_assoc]
    · rfl

end

/-! ## What is marked, and where -/

def valueMarks (target : Target) : List (Nat × TypeScriptDecoration) :=
  [(target.nodeId, .TypeText), (target.nodeId, .ResolvedType), (target.nodeId, .StringUnion)]

def functionMarks (target : Target) : List (Nat × TypeScriptDecoration) :=
  [(target.nodeId, .FnSignature)]

def moduleMarks (target : Target) : List (Nat × TypeScriptDecoration) :=
  [(target.nodeId, .ImportSource)]

/-- Every node with a type that a target may record on it, loop by loop. -/
def Targets.marks (targets : Targets) : List (Nat × TypeScriptDecoration) :=
  targets.values.flatMap valueMarks ++
    (targets.functions.flatMap functionMarks ++ targets.modules.flatMap moduleMarks)

/-- The nodes that get a type from a node of the walk: the node itself or its children. -/
def place : TypeScriptDecoration → SyntaxTree → List Nat
  | .TypeText, node => [node.id]
  | .ResolvedType, node => [node.id]
  | .StringUnion, node => [node.id]
  | .FnSignature, node => [node.id]
  | .ImportSource, node => node.childIds

theorem nodup_places {t : SyntaxTree} (h : t.ids.Nodup) (T : TypeScriptDecoration) :
    (t.visited.flatMap (place T)).Nodup := by
  cases T with
  | ImportSource => exact SyntaxTree.nodup_visited_children h
  | _ => exact SyntaxTree.nodup_visited_ids h

theorem Target.nodeId_of_new {node foundBy : SyntaxTree} {target : Target}
    (h : Target.new node foundBy = some target) : target.nodeId = node.id := by
  unfold Target.new at h
  split at h
  · split at h
    · obtain rfl := Option.some.inj h
      rfl
    · cases h
  · cases h

theorem nodeId_of_valueTarget {node : SyntaxTree} {target : Target}
    (h : valueTarget node = some target) : target.nodeId = node.id := by
  unfold valueTarget at h
  split at h
  · exact Target.nodeId_of_new h
  · cases h

theorem nodeId_of_functionTarget {node : SyntaxTree} {target : Target}
    (h : functionTarget fields node = some target) : target.nodeId = node.id := by
  unfold functionTarget at h
  split at h
  · obtain ⟨name, _, hnew⟩ := Option.bind_eq_some_iff.mp h
    exact Target.nodeId_of_new hnew
  · cases h

/-- The specifier is a child of the import or export that names it. -/
theorem nodeId_of_moduleTarget {node : SyntaxTree} {target : Target}
    (h : moduleTarget fields node = some target) : target.nodeId ∈ node.childIds := by
  unfold moduleTarget at h
  split at h
  · obtain ⟨source, hsource, hnew⟩ := Option.bind_eq_some_iff.mp h
    rw [Target.nodeId_of_new hnew]
    exact List.mem_map_of_mem (SyntaxTree.mem_of_childByFieldName hsource)
  · cases h

/-- The targets of one kind mark a node once, where each marks a place of its node. -/
theorem nodup_marks_of {t : SyntaxTree} (h : t.ids.Nodup) (find : SyntaxTree → Option Target)
    (marks : Target → List (Nat × TypeScriptDecoration)) (hmarks : ∀ target, (marks target).Nodup)
    (hplace : ∀ node target, find node = some target →
      ∀ mark ∈ marks target, mark.1 ∈ place mark.2 node) :
    ((t.visited.flatMap fun node => (find node).toList).flatMap marks).Nodup := by
  rw [List.flatMap_assoc]
  refine Roles.nodup_gives (nodup_places h) (fun node _ mark hmark => ?_) fun node _ => ?_
  · obtain ⟨target, htarget, hmem⟩ := List.mem_flatMap.mp hmark
    exact hplace node target (Option.mem_toList.mp htarget) mark hmem
  · cases find node with
    | none => exact List.nodup_nil
    | some target =>
      rw [Option.toList_some, List.flatMap_singleton]
      exact hmarks target

theorem mem_valueMarks {target : Target} {mark : Nat × TypeScriptDecoration} :
    mark ∈ valueMarks target ↔ mark = (target.nodeId, .TypeText) ∨
      mark = (target.nodeId, .ResolvedType) ∨ mark = (target.nodeId, .StringUnion) := by
  simp [valueMarks]

/-- No two targets record one type on one node. -/
theorem nodup_marks {t : SyntaxTree} (h : t.ids.Nodup) :
    (collectTargets fields t Targets.default).marks.Nodup := by
  rw [collectTargets_eq]
  have hvalues := nodup_marks_of h valueTarget valueMarks
    (fun target => by simp [valueMarks]) fun node target htarget mark hmark => by
      have hid := List.mem_singleton.mpr (nodeId_of_valueTarget htarget)
      rcases mem_valueMarks.mp hmark with rfl | rfl | rfl
      · exact hid
      · exact hid
      · exact hid
  have hfunctions := nodup_marks_of h (functionTarget fields) functionMarks
    (fun target => List.nodup_singleton _) fun node target htarget mark hmark => by
      obtain rfl := List.mem_singleton.mp hmark
      exact List.mem_singleton.mpr (nodeId_of_functionTarget htarget)
  have hmodules := nodup_marks_of h (moduleTarget fields) moduleMarks
    (fun target => List.nodup_singleton _) fun node target htarget mark hmark => by
      obtain rfl := List.mem_singleton.mp hmark
      exact nodeId_of_moduleTarget htarget
  -- the three loops record different types
  refine hvalues.append (hfunctions.append hmodules ?_) ?_
  · intro mark hfunction hmodule
    obtain ⟨_, _, hfirst⟩ := List.mem_flatMap.mp hfunction
    obtain ⟨_, _, hsecond⟩ := List.mem_flatMap.mp hmodule
    have hname := congrArg Prod.snd (List.mem_singleton.mp hfirst)
    rw [List.mem_singleton.mp hsecond] at hname
    cases hname
  · intro mark hvalue hother
    obtain ⟨_, _, hfirst⟩ := List.mem_flatMap.mp hvalue
    have hlater : mark.2 = .FnSignature ∨ mark.2 = .ImportSource := by
      rcases List.mem_append.mp hother with hfunction | hmodule
      · obtain ⟨_, _, hmem⟩ := List.mem_flatMap.mp hfunction
        exact Or.inl (congrArg Prod.snd (List.mem_singleton.mp hmem))
      · obtain ⟨_, _, hmem⟩ := List.mem_flatMap.mp hmodule
        exact Or.inr (congrArg Prod.snd (List.mem_singleton.mp hmem))
    rcases mem_valueMarks.mp hfirst with rfl | rfl | rfl <;> simp at hlater

/-! ## What is recorded -/

variable (answers : Answers Value Checker Token Declaration Ty)

theorem records_decorateValue :
    Records (D := typeScriptDecorations KEY Value) valueMarks (decorateValue answers) := by
  intro state target
  unfold decorateValue
  dsimp only
  split
  · exact ⟨⟨[], List.nil_sublist _, (List.append_nil _).symm⟩, fun hsealed => hsealed⟩
  · refine ⟨?_, fun _ =>
      DecorationMap.wellSealed_insertAnswer (DecorationMap.wellSealed_of_none rfl) _ _ _⟩
    obtain ⟨recorded, hsub, hmarks⟩ :=
      DecorationMap.marks_insertAnswer (D := typeScriptDecorations KEY Value) _ target.nodeId
        .StringUnion _
    refine ⟨(target.nodeId, .TypeText) :: (target.nodeId, .ResolvedType) :: recorded,
      (hsub.cons_cons _).cons_cons _, ?_⟩
    rw [hmarks, DecorationMap.marks_insert, DecorationMap.marks_insert, List.append_assoc,
      List.append_assoc]
    rfl

theorem records_decorateFunction :
    Records (D := typeScriptDecorations KEY Value) functionMarks (decorateFunction answers) := by
  intro state target
  unfold decorateFunction
  dsimp only
  split
  · exact ⟨⟨[], List.nil_sublist _, (List.append_nil _).symm⟩, fun hsealed => hsealed⟩
  · split
    · exact ⟨⟨[], List.nil_sublist _, (List.append_nil _).symm⟩, fun hsealed => hsealed⟩
    · exact ⟨DecorationMap.marks_insertAnswer state.2 _ _ _,
        fun hsealed => DecorationMap.wellSealed_insertAnswer hsealed _ _ _⟩

theorem records_decorateModule :
    Records (D := typeScriptDecorations KEY Value) moduleMarks (decorateModule answers) := by
  intro state target
  unfold decorateModule
  dsimp only
  split
  · exact ⟨⟨[], List.nil_sublist _, (List.append_nil _).symm⟩, fun hsealed => hsealed⟩
  · exact ⟨⟨_, List.Sublist.refl _, DecorationMap.marks_insert state.2 _ _ _⟩,
      fun _ => DecorationMap.wellSealed_of_none rfl⟩

/-- The map holds at most one decoration of each type for each node. -/
theorem oneOfEach_decorate {t : SyntaxTree} (h : t.ids.Nodup) :
    (decorate fields answers t : DecorationMap (typeScriptDecorations KEY Value)).OneOfEach := by
  have hvalue : Records (D := typeScriptDecorations KEY Value) valueMarks (decorateValue answers) :=
    records_decorateValue answers
  have hfunction : Records (D := typeScriptDecorations KEY Value) functionMarks
      (decorateFunction answers) := records_decorateFunction answers
  have hmodule : Records (D := typeScriptDecorations KEY Value) moduleMarks
      (decorateModule answers) := records_decorateModule answers
  unfold decorate
  dsimp only
  refine DecorationMap.oneOfEach_of_nodup ?_ ?_
  · exact foldl_wellSealed hmodule _ _ (foldl_wellSealed hfunction _ _
      (foldl_wellSealed hvalue _ _ (DecorationMap.wellSealed_of_none rfl)))
  · obtain ⟨values, hvalues, hfirst⟩ := foldl_marks hvalue (answers.checker, DecorationMap.new)
      (collectTargets fields t Targets.default).values
    obtain ⟨functions, hfunctions, hsecond⟩ := foldl_marks hfunction _ _
    obtain ⟨modules, hmodules, hthird⟩ := foldl_marks hmodule _ _
    rw [hthird, hsecond, hfirst, DecorationMap.marks_new, List.nil_append, List.append_assoc]
    exact (hvalues.append (hfunctions.append hmodules)).nodup (nodup_marks h)

end Stiles.TypeScriptProvider
