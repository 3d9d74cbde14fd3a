import Mathlib.Algebra.Group.Nat.Defs
import Stiles.Types.Cardinality

/-
  The nodes that the Rust provider asks rust-analyzer about (`provider.rs` of stiles-rust).

  `collectTargets` walks the named nodes of a tree and pushes a target for each node that gets a
  decoration; inside a use declaration `collectImportPaths` pushes one for each imported path. Then
  `resolveTargets` asks for each target and records the answers. The answers are arbitrary, and the
  paths that `resolveReexports` has looked up so far go from one question to the next.

  `collectTargets_eq`: the targets are those of the visited nodes, in pre-order.
-/

namespace Stiles.RustProvider

/-- A byte range of rust-analyzer, whose offsets have 32 bits. -/
structure TextRange where
  start : Nat
  stop : Nat
  start_le_stop : start ≤ stop
  stop_lt : stop < 2 ^ 32
deriving Repr

instance : DecidableEq TextRange := fun a b =>
  decidable_of_iff (a.start = b.start ∧ a.stop = b.stop) (by cases a; cases b; simp)

def textRangeFrom (start stop : Nat) (h : start ≤ stop) : Option TextRange :=
  if start < 2 ^ 32 then
    if hstop : stop < 2 ^ 32 then
      some { start, stop, start_le_stop := h, stop_lt := hstop }
    else none
  else none

def textRangeOf (node : SyntaxTree) : Option TextRange :=
  textRangeFrom node.info.startByte node.info.endByte node.info.start_le_end

inductive Target where
  | Function (nodeId : Nat) (range : TextRange)
  | MatchScrutinee (scrutineeRange : TextRange) (scrutineeNodeId : Nat)
  | IfElse (branchRange : TextRange) (elseNodeId : Nat)
  | TryExpr (operandRange : TextRange) (operandNodeId : Nat)
  | Import (nodeId : Nat) (range : TextRange)
  | ImportPath (nodeId : Nat) (range : TextRange)
deriving DecidableEq, Repr

/-- The node that receives the decoration. -/
def Target.nodeId : Target → Nat
  | .Function nodeId _ => nodeId
  | .MatchScrutinee _ scrutineeNodeId => scrutineeNodeId
  | .IfElse _ elseNodeId => elseNodeId
  | .TryExpr _ operandNodeId => operandNodeId
  | .Import nodeId _ => nodeId
  | .ImportPath nodeId _ => nodeId

/-! ## Collecting -/

/-- `target`, pushed if the range of the node fits. -/
def pushRange (node : SyntaxTree) (target : TextRange → Target) (targets : List Target) :
    List Target :=
  match textRangeOf node with
  | some range => targets ++ [target range]
  | none => targets

mutual

def collectImportPaths (fields : FieldNames) : SyntaxTree → List Target → List Target
  | .node info children, targets =>
    match info.kind with
    | "identifier" =>
      pushRange (.node info children) (.ImportPath info.id) targets
    | "scoped_identifier" =>
      pushRange (.node info children) (.ImportPath info.id) targets
    | "use_as_clause" => collectImportPathsOfField fields "path" children targets
    | "scoped_use_list" => collectImportPathsOfField fields "list" children targets
    | "use_list" => collectImportPathsOfNamed fields children targets
    | _ => targets

/-- The paths of the child that stands in the field. -/
def collectImportPathsOfField (fields : FieldNames) (name : String) :
    List SyntaxTree → List Target → List Target
  | [], targets => targets
  | child :: rest, targets =>
    if (fields child.id).contains name then collectImportPaths fields child targets
    else collectImportPathsOfField fields name rest targets

/-- The paths of the named children. -/
def collectImportPathsOfNamed (fields : FieldNames) :
    List SyntaxTree → List Target → List Target
  | [], targets => targets
  | child :: rest, targets =>
    collectImportPathsOfNamed fields rest
      (if child.named then collectImportPaths fields child targets else targets)

end

/-- The targets of the node itself, pushed before its children are walked. -/
def collectOwnTargets (fields : FieldNames) (node : SyntaxTree) (targets : List Target) :
    List Target :=
  match node.kind with
  | "function_item" => pushRange node (.Function node.id) targets
  | "function_signature_item" => pushRange node (.Function node.id) targets
  | "match_expression" =>
    match node.childByFieldName fields "value" with
    | some scrutinee =>
      pushRange scrutinee (fun range => .MatchScrutinee range scrutinee.id) targets
    | none => targets
  | "if_expression" =>
    match node.childByFieldName fields "alternative" with
    | some alt =>
      let block := (alt.namedChild 0).getD alt
      pushRange block (fun range => .IfElse range alt.id) targets
    | none => targets
  | "try_expression" =>
    match node.namedChild 0 with
    | some operand => pushRange operand (fun range => .TryExpr range operand.id) targets
    | none => targets
  | "use_declaration" =>
    let targets := pushRange node (.Import node.id) targets
    match node.childByFieldName fields "argument" with
    | some argument => collectImportPaths fields argument targets
    | none => targets
  | _ => targets

mutual

def collectTargets (fields : FieldNames) : SyntaxTree → List Target → List Target
  | .node info children, targets =>
    collectTargetsOfNamed fields children (collectOwnTargets fields (.node info children) targets)

def collectTargetsOfNamed (fields : FieldNames) : List SyntaxTree → List Target → List Target
  | [], targets => targets
  | child :: rest, targets =>
    collectTargetsOfNamed fields rest
      (if child.named then collectTargets fields child targets else targets)

end

/-! ## Resolving -/

/-- The types that the provider records. -/
inductive RustDecoration where
  | FnSignature
  | ResolvedType
  | AdtFlags
  | ImportSource
  | Reexports
deriving DecidableEq, Repr

/-- The decorations of the crate, each with its key and its values. -/
@[reducible] def rustDecorations (KEY : RustDecoration → DecorationKey)
    (Value : RustDecoration → Type) : DecorationTypes :=
  { Ty := RustDecoration, KEY, Value }

/-- What rust-analyzer answers for a range of a file. -/
structure Answers (Value : RustDecoration → Type) (ModulePaths : Type) where
  resolveFunction : TextRange → Option (Value .FnSignature)
  resolveMatchScrutinee : TextRange → Option (Value .ResolvedType × Option (Value .AdtFlags))
  resolveExprType : TextRange → Option (Value .ResolvedType)
  resolveImport : TextRange → Option (Value .ImportSource)
  resolveReexports : ModulePaths → TextRange → Option (Value .Reexports) × ModulePaths
  /-- The paths before the first question. -/
  modulePaths : ModulePaths

variable {KEY : RustDecoration → DecorationKey} {Value : RustDecoration → Type}
  {ModulePaths : Type}

def resolveTarget (answers : Answers Value ModulePaths)
    (state : ModulePaths × DecorationMap (rustDecorations KEY Value)) (target : Target) :
    ModulePaths × DecorationMap (rustDecorations KEY Value) :=
  match target with
  | .Function nodeId range =>
    (state.1, state.2.insertAnswer nodeId .FnSignature (answers.resolveFunction range))
  | .MatchScrutinee scrutineeRange scrutineeNodeId =>
    match answers.resolveMatchScrutinee scrutineeRange with
    | some (ty, flags) =>
      let decorations := state.2.insert scrutineeNodeId .ResolvedType ty
      (state.1, decorations.insertAnswer scrutineeNodeId .AdtFlags flags)
    | none => state
  | .IfElse branchRange elseNodeId =>
    (state.1, state.2.insertAnswer elseNodeId .ResolvedType (answers.resolveExprType branchRange))
  | .TryExpr operandRange operandNodeId =>
    (state.1,
      state.2.insertAnswer operandNodeId .ResolvedType (answers.resolveExprType operandRange))
  | .Import nodeId range =>
    (state.1, state.2.insertAnswer nodeId .ImportSource (answers.resolveImport range))
  | .ImportPath nodeId range =>
    let (reexports, modulePaths) := answers.resolveReexports state.1 range
    (modulePaths, state.2.insertAnswer nodeId .Reexports reexports)

def resolveTargets (answers : Answers Value ModulePaths) (targets : List Target) :
    DecorationMap (rustDecorations KEY Value) :=
  (targets.foldl (resolveTarget answers) (answers.modulePaths, DecorationMap.new)).2

/-- What `decorate` records for a file that the workspace covers. -/
def decorate (fields : FieldNames) (answers : Answers Value ModulePaths) (tree : SyntaxTree) :
    DecorationMap (rustDecorations KEY Value) :=
  resolveTargets answers (collectTargets fields tree [])

/-! ## The targets of a walk -/

variable {fields : FieldNames}

theorem pushRange_append (node : SyntaxTree) (target : TextRange → Target)
    (targets : List Target) :
    pushRange node target targets = targets ++ pushRange node target [] := by
  unfold pushRange
  cases textRangeOf node with
  | some range => rfl
  | none => exact (List.append_nil targets).symm

mutual

theorem collectImportPaths_append (t : SyntaxTree) (targets : List Target) :
    collectImportPaths fields t targets = targets ++ collectImportPaths fields t [] := by
  match t with
  | .node info children =>
    unfold collectImportPaths
    split
    · exact pushRange_append _ _ targets
    · exact pushRange_append _ _ targets
    · exact collectImportPathsOfField_append "path" children targets
    · exact collectImportPathsOfField_append "list" children targets
    · exact collectImportPathsOfNamed_append children targets
    · exact (List.append_nil targets).symm

theorem collectImportPathsOfField_append (name : String) (ts : List SyntaxTree)
    (targets : List Target) :
    collectImportPathsOfField fields name ts targets =
      targets ++ collectImportPathsOfField fields name ts [] := by
  match ts with
  | [] => exact (List.append_nil targets).symm
  | t :: ts =>
    unfold collectImportPathsOfField
    split
    · exact collectImportPaths_append t targets
    · exact collectImportPathsOfField_append name ts targets

theorem collectImportPathsOfNamed_append (ts : List SyntaxTree) (targets : List Target) :
    collectImportPathsOfNamed fields ts targets =
      targets ++ collectImportPathsOfNamed fields ts [] := by
  match ts with
  | [] => exact (List.append_nil targets).symm
  | t :: ts =>
    unfold collectImportPathsOfNamed
    split
    · rw [collectImportPathsOfNamed_append ts (collectImportPaths fields t targets),
        collectImportPathsOfNamed_append ts (collectImportPaths fields t []),
        collectImportPaths_append t targets, List.append_assoc]
    · exact collectImportPathsOfNamed_append ts targets

end

theorem collectOwnTargets_append (node : SyntaxTree) (targets : List Target) :
    collectOwnTargets fields node targets = targets ++ collectOwnTargets fields node [] := by
  unfold collectOwnTargets
  split
  · exact pushRange_append _ _ targets
  · exact pushRange_append _ _ targets
  · split
    · exact pushRange_append _ _ targets
    · exact (List.append_nil targets).symm
  · split
    · exact pushRange_append _ _ targets
    · exact (List.append_nil targets).symm
  · split
    · exact pushRange_append _ _ targets
    · exact (List.append_nil targets).symm
  · split
    · rename_i argument _
      dsimp only
      rw [collectImportPaths_append argument, pushRange_append node _ targets, List.append_assoc,
        ← collectImportPaths_append argument]
    · exact pushRange_append _ _ targets
  · exact (List.append_nil targets).symm

mutual

/-- The targets are those of the visited nodes, in pre-order. -/
theorem collectTargets_eq (t : SyntaxTree) (targets : List Target) :
    collectTargets fields t targets =
      targets ++ t.visited.flatMap fun node => collectOwnTargets fields node [] := by
  match t with
  | .node info children =>
    unfold collectTargets SyntaxTree.visited
    rw [collectTargetsOfNamed_eq children, collectOwnTargets_append, List.flatMap_cons,
      List.append_assoc]

theorem collectTargetsOfNamed_eq (ts : List SyntaxTree) (targets : List Target) :
    collectTargetsOfNamed fields ts targets =
      targets ++ (SyntaxTree.visitedAll ts).flatMap fun node =>
        collectOwnTargets fields node [] := by
  match ts with
  | [] => exact (List.append_nil targets).symm
  | t :: ts =>
    unfold collectTargetsOfNamed SyntaxTree.visitedAll
    rw [collectTargetsOfNamed_eq ts, List.flatMap_append]
    split
    · rw [collectTargets_eq t, List.append_assoc]
    · rfl

end

end Stiles.RustProvider
