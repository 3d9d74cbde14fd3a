import Mathlib.Data.List.Flatten
import Stiles.Rust.Targets

/-
  What the targets of the Rust provider mark.

  A target marks the node that it is made for, a child of that node, or a path of a use declaration,
  and the three kinds of places go with different types.

  * `count_visited_paths`: no path is collected from two use declarations, nor twice from one.
  * `nodup_marks`: no two targets record one type on one node.
  * `oneOfEach_decorate`: the map that the provider makes holds at most one decoration of each type
    for each node, whatever rust-analyzer answers.
-/

namespace Stiles.RustProvider

variable {fields : FieldNames}

/-! ## The paths of use declarations -/

theorem collectImportPathsOfField_eq (name : String) (ts : List SyntaxTree)
    (targets : List Target) :
    collectImportPathsOfField fields name ts targets =
      match ts.find? fun child => (fields child.id).contains name with
      | some child => collectImportPaths fields child targets
      | none => targets := by
  induction ts with
  | nil => rfl
  | cons t ts ih =>
    unfold collectImportPathsOfField
    rw [List.find?_cons]
    split
    · rename_i hfield
      rw [hfield]
    · rename_i hfield
      rw [Bool.eq_false_iff.mpr hfield]
      exact ih

theorem collectImportPathsOfNamed_eq (ts : List SyntaxTree) :
    collectImportPathsOfNamed fields ts [] =
      (ts.filter SyntaxTree.named).flatMap fun child => collectImportPaths fields child [] := by
  induction ts with
  | nil => rfl
  | cons t ts ih =>
    unfold collectImportPathsOfNamed
    rw [collectImportPathsOfNamed_append, ih, List.filter_cons]
    split
    · rw [List.flatMap_cons]
    · rfl

/-- The nodes of the paths below `t` that a use tree at `t` imports. -/
def pathIds (fields : FieldNames) (t : SyntaxTree) : List Nat :=
  (collectImportPaths fields t []).map Target.nodeId

/-- The nodes of the paths that the node imports, if it is a use declaration. -/
def ownPathIds (fields : FieldNames) (node : SyntaxTree) : List Nat :=
  if node.kind = "use_declaration" then
    match node.childByFieldName fields "argument" with
    | some argument => pathIds fields argument
    | none => []
  else []

/-- The paths of one child are among those of all. -/
theorem pathIds_sublist {t child : SyntaxTree} (h : child ∈ t.children) :
    (pathIds fields child).Sublist (t.children.flatMap (pathIds fields)) := by
  rw [List.flatMap_def]
  exact List.sublist_flatten_of_mem (List.mem_map_of_mem h)

theorem pathIds_of_field (info : NodeInfo) (children : List SyntaxTree) (name : String) :
    ((collectImportPathsOfField fields name children []).map Target.nodeId).Sublist
      (children.flatMap (pathIds fields)) := by
  rw [collectImportPathsOfField_eq]
  split
  · rename_i child hchild
    exact pathIds_sublist (t := .node info children) (List.mem_of_find?_eq_some hchild)
  · exact List.nil_sublist _

theorem pathIds_of_named (children : List SyntaxTree) :
    ((collectImportPathsOfNamed fields children []).map Target.nodeId).Sublist
      (children.flatMap (pathIds fields)) := by
  rw [collectImportPathsOfNamed_eq, List.map_flatMap]
  exact List.filter_sublist.flatMap _

theorem pathIds_of_pushRange (node : SyntaxTree) (nodeId : Nat) :
    ((pushRange node (.ImportPath nodeId) []).map Target.nodeId).Sublist [nodeId] := by
  unfold pushRange
  split
  · exact List.Sublist.refl _
  · exact List.nil_sublist _

/-- A use tree imports the node it stands on or paths below it, and a use declaration is no use
    tree. -/
theorem pathIds_cases (t : SyntaxTree) :
    (t.kind = "use_declaration" → pathIds fields t = []) ∧
      ((pathIds fields t).Sublist [t.id] ∨
        (pathIds fields t).Sublist (t.children.flatMap (pathIds fields))) := by
  obtain ⟨info, children⟩ := t
  have hkind : (SyntaxTree.node info children).kind = info.kind := rfl
  rw [hkind, pathIds]
  unfold collectImportPaths
  split
  · rename_i hidentifier
    rw [hidentifier]
    exact ⟨fun h => absurd h (by decide), Or.inl (pathIds_of_pushRange _ info.id)⟩
  · rename_i hscoped
    rw [hscoped]
    exact ⟨fun h => absurd h (by decide), Or.inl (pathIds_of_pushRange _ info.id)⟩
  · rename_i has
    rw [has]
    exact ⟨fun h => absurd h (by decide), Or.inr (pathIds_of_field info children "path")⟩
  · rename_i hlist
    rw [hlist]
    exact ⟨fun h => absurd h (by decide), Or.inr (pathIds_of_field info children "list")⟩
  · rename_i hlist
    rw [hlist]
    exact ⟨fun h => absurd h (by decide), Or.inr (pathIds_of_named children)⟩
  · exact ⟨fun _ => rfl, Or.inl (List.nil_sublist _)⟩

/-- A node is imported by what stands above it or imports what is below it, never both. -/
theorem count_paths_of_node (t : SyntaxTree) (x : Nat) :
    (pathIds fields t).count x + (ownPathIds fields t).count x ≤
      [t.id].count x + (t.children.flatMap (pathIds fields)).count x := by
  obtain ⟨hdeclaration, hpaths⟩ := @pathIds_cases fields t
  unfold ownPathIds
  split
  · rename_i hkind
    rw [hdeclaration hkind, List.count_nil]
    split
    · rename_i argument hargument
      have hbelow : (pathIds fields argument).Sublist (t.children.flatMap (pathIds fields)) :=
        pathIds_sublist (SyntaxTree.mem_of_childByFieldName hargument)
      have := hbelow.count_le x
      omega
    · rw [List.count_nil]
      omega
  · rw [List.count_nil]
    rcases hpaths with hown | hbelow
    · have := hown.count_le x
      omega
    · have := hbelow.count_le x
      omega

mutual

/-- No path is collected from two use declarations, nor twice from one. -/
theorem count_visited_paths (t : SyntaxTree) (x : Nat) :
    (pathIds fields t).count x + (t.visited.flatMap (ownPathIds fields)).count x ≤
      t.ids.count x := by
  match t with
  | .node info children =>
    have hnode := @count_paths_of_node fields (.node info children) x
    have hbelow := count_visitedAll_paths children x
    have hchildren : (SyntaxTree.node info children).children = children := rfl
    have hid : (SyntaxTree.node info children).id = info.id := rfl
    rw [hchildren, hid] at hnode
    unfold SyntaxTree.visited SyntaxTree.ids
    have hids : (info.id :: SyntaxTree.idsAll children).count x =
        [info.id].count x + (SyntaxTree.idsAll children).count x := by
      rw [← List.singleton_append, List.count_append]
    rw [List.flatMap_cons, List.count_append, hids]
    omega

theorem count_visitedAll_paths (ts : List SyntaxTree) (x : Nat) :
    (ts.flatMap (pathIds fields)).count x +
      ((SyntaxTree.visitedAll ts).flatMap (ownPathIds fields)).count x ≤
        (SyntaxTree.idsAll ts).count x := by
  match ts with
  | [] => exact Nat.le_refl _
  | t :: ts =>
    have hfirst := count_visited_paths t x
    have hrest := count_visitedAll_paths ts x
    unfold SyntaxTree.visitedAll SyntaxTree.idsAll
    rw [List.flatMap_cons, List.flatMap_append, List.count_append, List.count_append,
      List.count_append]
    split
    · omega
    · rw [List.flatMap_nil, List.count_nil]
      omega

end

/-! ## What is marked, and where -/

/-- Every node with a type that the target may record on it. -/
def Target.marks : Target → List (Nat × RustDecoration)
  | .Function nodeId _ => [(nodeId, .FnSignature)]
  | .MatchScrutinee _ scrutineeNodeId =>
    [(scrutineeNodeId, .ResolvedType), (scrutineeNodeId, .AdtFlags)]
  | .IfElse _ elseNodeId => [(elseNodeId, .ResolvedType)]
  | .TryExpr _ operandNodeId => [(operandNodeId, .ResolvedType)]
  | .Import nodeId _ => [(nodeId, .ImportSource)]
  | .ImportPath nodeId _ => [(nodeId, .Reexports)]

/-- The nodes that get a type from a node of the walk: the node itself, its children or the paths
    it imports. -/
def place (fields : FieldNames) : RustDecoration → SyntaxTree → List Nat
  | .FnSignature, node => [node.id]
  | .ImportSource, node => [node.id]
  | .ResolvedType, node => node.childIds
  | .AdtFlags, node => node.childIds
  | .Reexports, node => ownPathIds fields node

theorem nodup_places {t : SyntaxTree} (h : t.ids.Nodup) (T : RustDecoration) :
    (t.visited.flatMap (place fields T)).Nodup := by
  cases T with
  | FnSignature => exact SyntaxTree.nodup_visited_ids h
  | ImportSource => exact SyntaxTree.nodup_visited_ids h
  | ResolvedType => exact SyntaxTree.nodup_visited_children h
  | AdtFlags => exact SyntaxTree.nodup_visited_children h
  | Reexports =>
    rw [List.nodup_iff_count] at h ⊢
    intro x
    have hpaths : (t.visited.flatMap (ownPathIds fields)).count x ≤ t.ids.count x :=
      (Nat.le_add_left _ _).trans (count_visited_paths t x)
    exact hpaths.trans (h x)

/-- What a walk over use trees collects are import paths. -/
def IsImportPath (target : Target) : Prop := target.marks = [(target.nodeId, .Reexports)]

theorem isImportPath_of_pushRange {node : SyntaxTree} {nodeId : Nat} {target : Target}
    (h : target ∈ pushRange node (.ImportPath nodeId) []) : IsImportPath target := by
  unfold pushRange at h
  split at h
  · rw [List.nil_append, List.mem_singleton] at h
    rw [h]
    rfl
  · cases h

mutual

theorem isImportPath_of_collect (t : SyntaxTree) :
    ∀ target ∈ collectImportPaths fields t [], IsImportPath target := by
  match t with
  | .node info children =>
    unfold collectImportPaths
    split
    · exact fun _ => isImportPath_of_pushRange
    · exact fun _ => isImportPath_of_pushRange
    · exact isImportPath_of_field "path" children
    · exact isImportPath_of_field "list" children
    · exact isImportPath_of_named children
    · exact fun target h => absurd h List.not_mem_nil

theorem isImportPath_of_field (name : String) (ts : List SyntaxTree) :
    ∀ target ∈ collectImportPathsOfField fields name ts [], IsImportPath target := by
  match ts with
  | [] => exact fun target h => absurd h List.not_mem_nil
  | t :: ts =>
    unfold collectImportPathsOfField
    split
    · exact isImportPath_of_collect t
    · exact isImportPath_of_field name ts

theorem isImportPath_of_named (ts : List SyntaxTree) :
    ∀ target ∈ collectImportPathsOfNamed fields ts [], IsImportPath target := by
  match ts with
  | [] => exact fun target h => absurd h List.not_mem_nil
  | t :: ts =>
    unfold collectImportPathsOfNamed
    rw [collectImportPathsOfNamed_append]
    intro target h
    rcases List.mem_append.mp h with hfirst | hrest
    · split at hfirst
      · exact isImportPath_of_collect t target hfirst
      · cases hfirst
    · exact isImportPath_of_named ts target hrest

end

/-- The marks of import paths are their nodes. -/
theorem marks_of_paths (t : SyntaxTree) :
    (collectImportPaths fields t []).flatMap Target.marks =
      (pathIds fields t).map fun nodeId => (nodeId, .Reexports) := by
  unfold pathIds
  rw [List.map_map, List.map_eq_flatMap]
  exact List.flatMap_congr fun target htarget => isImportPath_of_collect t target htarget

/-- What the targets of one node may mark. -/
def ownMarks (fields : FieldNames) (node : SyntaxTree) : List (Nat × RustDecoration) :=
  (collectOwnTargets fields node []).flatMap Target.marks

theorem marks_of_pushRange {node : SyntaxTree} {target : TextRange → Target}
    {marks : List (Nat × RustDecoration)} (h : ∀ range, (target range).marks = marks) :
    ((pushRange node target []).flatMap Target.marks).Sublist marks := by
  unfold pushRange
  split
  · rename_i range _
    rw [List.nil_append, List.flatMap_singleton, h range]
  · exact List.nil_sublist _

/-- Beside the paths it imports, a node marks itself or one of its children. -/
inductive OwnMarks (node : SyntaxTree) : List (Nat × RustDecoration) → Prop where
  | function : OwnMarks node [(node.id, .FnSignature)]
  | import_ : OwnMarks node [(node.id, .ImportSource)]
  | child (child : SyntaxTree) (h : child ∈ node.children) :
    OwnMarks node [(child.id, .ResolvedType), (child.id, .AdtFlags)]
  | nothing : OwnMarks node []

theorem ownMarks_sublist (node : SyntaxTree) : ∃ marks, OwnMarks node marks ∧
    (ownMarks fields node).Sublist
      (marks ++ (ownPathIds fields node).map fun nodeId => (nodeId, .Reexports)) := by
  have hbeside : ∀ {found marks : List (Nat × RustDecoration)}, OwnMarks node marks →
      found.Sublist marks → ∃ marks, OwnMarks node marks ∧ found.Sublist
        (marks ++ (ownPathIds fields node).map fun nodeId => (nodeId, .Reexports)) :=
    fun hmarks hfound => ⟨_, hmarks, hfound.trans (List.sublist_append_left _ _)⟩
  have hnothing := hbeside .nothing (List.Sublist.refl [])
  have htype : ∀ {child : SyntaxTree}, [(child.id, RustDecoration.ResolvedType)].Sublist
      [(child.id, .ResolvedType), (child.id, .AdtFlags)] :=
    (List.nil_sublist _).cons_cons _
  unfold ownMarks collectOwnTargets
  split
  · exact hbeside .function (marks_of_pushRange fun _ => rfl)
  · exact hbeside .function (marks_of_pushRange fun _ => rfl)
  · split
    · rename_i scrutinee hscrutinee
      exact hbeside (.child scrutinee (SyntaxTree.mem_of_childByFieldName hscrutinee))
        (marks_of_pushRange fun _ => rfl)
    · exact hnothing
  · split
    · rename_i alt halt
      refine hbeside (.child alt (SyntaxTree.mem_of_childByFieldName halt)) (.trans ?_ htype)
      exact marks_of_pushRange fun _ => rfl
    · exact hnothing
  · split
    · rename_i operand hoperand
      refine hbeside (.child operand (SyntaxTree.mem_of_namedChild hoperand)) (.trans ?_ htype)
      exact marks_of_pushRange fun _ => rfl
    · exact hnothing
  · rename_i hkind
    split
    · rename_i argument hargument
      have hpaths : ownPathIds fields node = pathIds fields argument := by
        unfold ownPathIds
        rw [if_pos hkind, hargument]
      refine ⟨_, .import_, ?_⟩
      have himport : ((pushRange node (.Import node.id) []).flatMap Target.marks).Sublist
          [(node.id, .ImportSource)] := marks_of_pushRange fun _ => rfl
      dsimp only
      rw [collectImportPaths_append, List.flatMap_append, marks_of_paths, hpaths]
      exact himport.append (List.Sublist.refl _)
    · exact hbeside .import_ (marks_of_pushRange fun _ => rfl)
  · exact hnothing

theorem OwnMarks.within {node : SyntaxTree} {marks : List (Nat × RustDecoration)}
    (h : OwnMarks node marks) : ∀ mark ∈ marks, mark.1 ∈ place fields mark.2 node := by
  intro mark hmark
  cases h with
  | function =>
    obtain rfl := List.mem_singleton.mp hmark
    exact List.mem_singleton_self _
  | import_ =>
    obtain rfl := List.mem_singleton.mp hmark
    exact List.mem_singleton_self _
  | child child hchild =>
    have hid : child.id ∈ node.childIds := List.mem_map_of_mem hchild
    rcases List.mem_pair.mp hmark with rfl | rfl
    · exact hid
    · exact hid
  | nothing => cases hmark

theorem OwnMarks.nodup {node : SyntaxTree} {marks : List (Nat × RustDecoration)}
    (h : OwnMarks node marks) :
    marks.Nodup ∧ ∀ nodeId, (nodeId, RustDecoration.Reexports) ∉ marks := by
  cases h <;> simp

theorem ownMarks_within (node : SyntaxTree) :
    ∀ mark ∈ ownMarks fields node, mark.1 ∈ place fields mark.2 node := by
  obtain ⟨marks, hmarks, hsub⟩ := @ownMarks_sublist fields node
  intro mark hmark
  rcases List.mem_append.mp (hsub.subset hmark) with hown | hpath
  · exact hmarks.within mark hown
  · obtain ⟨nodeId, hnode, rfl⟩ := List.mem_map.mp hpath
    exact hnode

theorem nodup_ownMarks {node : SyntaxTree} (hpaths : (ownPathIds fields node).Nodup) :
    (ownMarks fields node).Nodup := by
  obtain ⟨marks, hmarks, hsub⟩ := @ownMarks_sublist fields node
  obtain ⟨hown, hno⟩ := hmarks.nodup
  refine hsub.nodup (hown.append (hpaths.map fun a b hab => congrArg Prod.fst hab) ?_)
  intro mark hleft hright
  obtain ⟨nodeId, _, rfl⟩ := List.mem_map.mp hright
  exact hno nodeId hleft

/-- No two targets record one type on one node. -/
theorem nodup_marks {t : SyntaxTree} (h : t.ids.Nodup) :
    ((collectTargets fields t []).flatMap Target.marks).Nodup := by
  rw [collectTargets_eq, List.nil_append, List.flatMap_assoc]
  refine Roles.nodup_gives (nodup_places h) (fun node _ => ownMarks_within node) ?_
  intro node hnode
  exact nodup_ownMarks ((List.nodup_flatMap.mp (nodup_places h .Reexports)).1 node hnode)

/-! ## What is recorded -/

variable {KEY : RustDecoration → DecorationKey} {Value : RustDecoration → Type}
  {ModulePaths : Type}

theorem records_resolveTarget (answers : Answers Value ModulePaths) :
    Records (D := rustDecorations KEY Value) Target.marks (resolveTarget answers) := by
  intro state target
  refine ⟨?_, fun hsealed => ?_⟩
  · cases target with
    | MatchScrutinee scrutineeRange scrutineeNodeId =>
      unfold resolveTarget
      dsimp only
      split
      · rename_i ty flags _
        obtain ⟨recorded, hsub, hmarks⟩ := DecorationMap.marks_insertAnswer
          (state.2.insert scrutineeNodeId .ResolvedType ty) scrutineeNodeId .AdtFlags flags
        refine ⟨(scrutineeNodeId, .ResolvedType) :: recorded, hsub.cons_cons _, ?_⟩
        rw [hmarks, DecorationMap.marks_insert, List.append_assoc]
        rfl
      · exact ⟨[], List.nil_sublist _, (List.append_nil _).symm⟩
    | _ => exact DecorationMap.marks_insertAnswer _ _ _ _
  · cases target with
    | MatchScrutinee scrutineeRange scrutineeNodeId =>
      unfold resolveTarget
      dsimp only
      split
      · exact DecorationMap.wellSealed_insertAnswer (DecorationMap.wellSealed_of_none rfl) _ _ _
      · exact hsealed
    | _ => exact DecorationMap.wellSealed_insertAnswer hsealed _ _ _

/-- The map holds at most one decoration of each type for each node. -/
theorem oneOfEach_decorate (answers : Answers Value ModulePaths) {t : SyntaxTree}
    (h : t.ids.Nodup) :
    (decorate fields answers t : DecorationMap (rustDecorations KEY Value)).OneOfEach := by
  have hrecords : Records (D := rustDecorations KEY Value) Target.marks (resolveTarget answers) :=
    records_resolveTarget answers
  refine DecorationMap.oneOfEach_of_nodup ?_ ?_
  · exact foldl_wellSealed hrecords _ _ (DecorationMap.wellSealed_of_none rfl)
  · obtain ⟨recorded, hsub, hmarks⟩ := foldl_marks hrecords
      (answers.modulePaths, DecorationMap.new) (collectTargets fields t [])
    rw [DecorationMap.marks_new, List.nil_append] at hmarks
    rw [decorate, resolveTargets, hmarks]
    exact hsub.nodup (nodup_marks h)

end Stiles.RustProvider
