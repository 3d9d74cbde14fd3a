import Stiles.Rust.Covering
import Stiles.Rust.Marks

/-
  The type of an else branch.

  The provider types the body of an else clause and records the type on the clause. It takes the
  first named child for the body, and a comment before the body is a named child too.

  * `getAll_elseClause`: what the clause holds is what is answered for the range of the first named
    child.
  * `typesElse_iff`: every else clause gets the type of its body if and only if none has a comment
    as its first named child, comments beyond the reach of a 32-bit range apart.
-/

namespace Stiles.RustProvider

variable {fields : FieldNames}

/-! ## What the grammar says -/

def isComment (node : SyntaxTree) : Bool :=
  node.kind = "line_comment" || node.kind = "block_comment"

def isBody (node : SyntaxTree) : Bool := node.kind = "block" || node.kind = "if_expression"

/-- An else clause with its body: one block or if expression, with comments around it. -/
structure ElseClause (alt body : SyntaxTree) : Prop where
  isBody : isBody body = true
  children : ∃ before after, alt.namedChildren = before ++ body :: after ∧
    (∀ comment ∈ before, isComment comment = true ∧
      comment.info.startByte < comment.info.endByte ∧
      comment.info.endByte ≤ body.info.startByte) ∧
    ∀ comment ∈ after, isComment comment = true

/-- `alt` is the alternative of an if expression that the walk visits. -/
def IsAlternative (fields : FieldNames) (t node alt : SyntaxTree) : Prop :=
  node ∈ t.visited ∧ node.kind = "if_expression" ∧
    node.childByFieldName fields "alternative" = some alt

def ElseGrammar (fields : FieldNames) (t : SyntaxTree) : Prop :=
  ∀ node alt, IsAlternative fields t node alt → ∃ body, ElseClause alt body

theorem not_isComment_of_isBody {node : SyntaxTree} (h : isBody node = true) :
    isComment node = false := by
  unfold isBody at h
  unfold isComment
  rw [Bool.or_eq_true, decide_eq_true_iff, decide_eq_true_iff] at h
  rcases h with hkind | hkind
  · rw [hkind]
    decide
  · rw [hkind]
    decide

/-- The first named child is the body, or a comment before it. -/
theorem ElseClause.first {alt body : SyntaxTree} (h : ElseClause alt body) :
    alt.namedChild 0 = some body ∨ ∃ comment, alt.namedChild 0 = some comment ∧
      isComment comment = true ∧ comment.info.startByte < comment.info.endByte ∧
      comment.info.endByte ≤ body.info.startByte := by
  obtain ⟨before, after, hchildren, hbefore, _⟩ := h.children
  unfold SyntaxTree.namedChild
  rw [hchildren]
  cases before with
  | nil => exact Or.inl rfl
  | cons comment rest => exact Or.inr ⟨comment, rfl, hbefore comment List.mem_cons_self⟩

/-! ## Ranges -/

theorem textRangeOf_eq_some {node : SyntaxTree} {range : TextRange}
    (h : textRangeOf node = some range) :
    range.start = node.info.startByte ∧ range.stop = node.info.endByte := by
  unfold textRangeOf textRangeFrom at h
  split at h
  · split at h
    · obtain rfl := Option.some.inj h
      exact ⟨rfl, rfl⟩
    · cases h
  · cases h

/-- A node that ends where 32 bits reach has a range. -/
theorem textRangeOf_eq_none {node : SyntaxTree} :
    textRangeOf node = none ↔ 2 ^ 32 ≤ node.info.endByte := by
  have hle := node.info.start_le_end
  unfold textRangeOf textRangeFrom
  split
  · split
    · exact iff_of_false (fun h => by cases h) (by omega)
    · exact iff_of_true rfl (by omega)
  · exact iff_of_true rfl (by omega)

theorem pushRange_of_some {node : SyntaxTree} {range : TextRange}
    (h : textRangeOf node = some range) (target : TextRange → Target) :
    pushRange node target [] = [target range] := by
  unfold pushRange
  rw [h]
  rfl

theorem pushRange_of_none {node : SyntaxTree} (h : textRangeOf node = none)
    (target : TextRange → Target) : pushRange node target [] = [] := by
  unfold pushRange
  rw [h]

/-- Where the comment is out of reach, so is the body behind it. -/
theorem textRangeOf_behind {comment body : SyntaxTree}
    (hbehind : comment.info.endByte ≤ body.info.startByte)
    (h : textRangeOf comment = none) : textRangeOf body = none := by
  rw [textRangeOf_eq_none] at h ⊢
  have := body.info.start_le_end
  omega

/-- A comment has not the range of the body behind it. -/
theorem textRangeOf_ne {comment body : SyntaxTree}
    (hempty : comment.info.startByte < comment.info.endByte)
    (hbehind : comment.info.endByte ≤ body.info.startByte) {range : TextRange}
    (h : textRangeOf comment = some range) : textRangeOf body ≠ some range := by
  intro hbody
  obtain ⟨hstart, _⟩ := textRangeOf_eq_some h
  obtain ⟨hstart', _⟩ := textRangeOf_eq_some hbody
  omega

/-! ## What an else clause holds -/

section Recorded

variable {KEY : RustDecoration → DecorationKey} {Value : RustDecoration → Type}
  {ModulePaths : Type}

/-- The types that a target records on a node. -/
def Target.typesOn (answers : Answers Value ModulePaths) (nodeId : Nat) :
    Target → List (Value .ResolvedType)
  | .MatchScrutinee range id =>
    if id = nodeId then ((answers.resolveMatchScrutinee range).map Prod.fst).toList else []
  | .IfElse range id => if id = nodeId then (answers.resolveExprType range).toList else []
  | .TryExpr range id => if id = nodeId then (answers.resolveExprType range).toList else []
  | .Function _ _ => []
  | .Import _ _ => []
  | .ImportPath _ _ => []

theorem getAll_insert (map : DecorationMap (rustDecorations KEY Value)) (id nodeId : Nat)
    (T S : RustDecoration) (value : Value T) :
    Entries.getAll (map.insert id T value).entries S nodeId =
      Entries.getAll map.entries S nodeId ++
        if h : T = S ∧ id = nodeId then [h.1 ▸ value] else [] := by
  unfold DecorationMap.insert
  rw [Entries.getAll_append]
  congr 1
  unfold Entries.getAll Entries.held Entry.new
  rw [List.filter_cons, List.filter_nil]
  by_cases hT : T = S
  · subst hT
    by_cases hid : id = nodeId <;> simp [hid, Entry.read]
  · rw [dif_neg fun h => hT h.1]
    split
    · simp [Entry.read, hT]
    · rfl

theorem getAll_insertAnswer (map : DecorationMap (rustDecorations KEY Value)) (id nodeId : Nat)
    (answer : Option (Value .ResolvedType)) :
    Entries.getAll (map.insertAnswer id .ResolvedType answer).entries .ResolvedType nodeId =
      Entries.getAll map.entries .ResolvedType nodeId ++
        if id = nodeId then answer.toList else [] := by
  unfold DecorationMap.insertAnswer
  split
  · rw [getAll_insert]
    by_cases hid : id = nodeId <;> simp [hid]
  · simp

/-- A type of another kind leaves the resolved types of a node alone. -/
theorem getAll_insertAnswer_other (map : DecorationMap (rustDecorations KEY Value))
    (id nodeId : Nat) {T : RustDecoration} (hT : T ≠ .ResolvedType) (answer : Option (Value T)) :
    Entries.getAll (map.insertAnswer id T answer).entries .ResolvedType nodeId =
      Entries.getAll map.entries .ResolvedType nodeId := by
  unfold DecorationMap.insertAnswer
  split
  · rw [getAll_insert, dif_neg fun h => hT h.1, List.append_nil]
  · rfl

theorem getAll_resolveTarget (answers : Answers Value ModulePaths)
    (state : ModulePaths × DecorationMap (rustDecorations KEY Value)) (target : Target)
    (nodeId : Nat) :
    Entries.getAll (resolveTarget answers state target).2.entries .ResolvedType nodeId =
      Entries.getAll state.2.entries .ResolvedType nodeId ++ target.typesOn answers nodeId := by
  cases target with
  | MatchScrutinee range id =>
    unfold resolveTarget Target.typesOn
    dsimp only
    split
    · rename_i ty flags hanswer
      dsimp only
      rw [getAll_insertAnswer_other _ _ _ (by decide), getAll_insert, hanswer]
      by_cases hid : id = nodeId <;> simp [hid]
    · rename_i hanswer
      rw [hanswer]
      simp
  | IfElse range id => exact getAll_insertAnswer _ _ _ _
  | TryExpr range id => exact getAll_insertAnswer _ _ _ _
  | Function id range =>
    rw [Target.typesOn, List.append_nil]
    exact getAll_insertAnswer_other _ _ _ (by decide) _
  | Import id range =>
    rw [Target.typesOn, List.append_nil]
    exact getAll_insertAnswer_other _ _ _ (by decide) _
  | ImportPath id range =>
    rw [Target.typesOn, List.append_nil]
    exact getAll_insertAnswer_other _ _ _ (by decide) _

theorem getAll_foldl (answers : Answers Value ModulePaths) (targets : List Target) (nodeId : Nat)
    (state : ModulePaths × DecorationMap (rustDecorations KEY Value)) :
    Entries.getAll (targets.foldl (resolveTarget answers) state).2.entries .ResolvedType nodeId =
      Entries.getAll state.2.entries .ResolvedType nodeId ++
        targets.flatMap (Target.typesOn answers nodeId) := by
  induction targets generalizing state with
  | nil => exact (List.append_nil _).symm
  | cons target rest ih =>
    rw [List.foldl_cons, ih, getAll_resolveTarget, List.flatMap_cons, List.append_assoc]

/-- A target that records a type on a node marks it. -/
theorem Target.mem_marks_of_typesOn {answers : Answers Value ModulePaths} {target : Target}
    {nodeId : Nat} (h : target.typesOn answers nodeId ≠ []) :
    (nodeId, RustDecoration.ResolvedType) ∈ target.marks := by
  have hself : ∀ {id : Nat} {types : List (Value .ResolvedType)},
      (if id = nodeId then types else []) ≠ [] → id = nodeId := by
    intro id types hne
    by_contra hid
    exact hne (if_neg hid)
  cases target with
  | MatchScrutinee range id =>
    obtain rfl := hself h
    exact List.mem_cons_self
  | IfElse range id =>
    obtain rfl := hself h
    exact List.mem_cons_self
  | TryExpr range id =>
    obtain rfl := hself h
    exact List.mem_cons_self
  | Function id range => exact absurd rfl h
  | Import id range => exact absurd rfl h
  | ImportPath id range => exact absurd rfl h

/-- The target of an if expression with an else clause, made for its first named child. -/
theorem collectOwnTargets_if {t node alt block : SyntaxTree} (h : IsAlternative fields t node alt)
    (hblock : alt.namedChild 0 = some block) :
    collectOwnTargets fields node [] =
      pushRange block (fun range => .IfElse range alt.id) [] := by
  obtain ⟨_, hkind, halt⟩ := h
  unfold collectOwnTargets
  simp only [hkind, halt, hblock, Option.getD_some]

/-- What an else clause holds is what is answered for the range of its first named child. -/
theorem getAll_elseClause (answers : Answers Value ModulePaths) {t node alt block : SyntaxTree}
    (hids : t.ids.Nodup) (h : IsAlternative fields t node alt)
    (hblock : alt.namedChild 0 = some block) :
    (decorate fields answers t : DecorationMap (rustDecorations KEY Value)).getAll .ResolvedType
        alt.id =
      ((textRangeOf block).bind answers.resolveExprType).toList := by
  have hsealed : (decorate fields answers t :
      DecorationMap (rustDecorations KEY Value)).WellSealed :=
    foldl_wellSealed (records_resolveTarget answers) _ _ (DecorationMap.wellSealed_of_none rfl)
  have hnew : Entries.getAll (DecorationMap.new : DecorationMap (rustDecorations KEY Value)).entries
      .ResolvedType alt.id = [] := rfl
  rw [DecorationMap.getAll_eq hsealed, decorate, resolveTargets, getAll_foldl, hnew,
    List.nil_append, collectTargets_eq, List.nil_append, List.flatMap_assoc]
  obtain ⟨before, after, hvisited⟩ := List.append_of_mem h.1
  have hplaces : (t.visited.flatMap (place fields .ResolvedType)).Nodup := nodup_places hids _
  have halt : alt.id ∈ place fields .ResolvedType node :=
    List.mem_map_of_mem (SyntaxTree.mem_of_childByFieldName h.2.2)
  rw [hvisited] at hplaces ⊢
  -- no other node of the walk marks the clause with a type
  rw [Roles.flatMap_only node, collectOwnTargets_if h hblock]
  · cases hrange : textRangeOf block with
    | none =>
      rw [pushRange_of_none hrange]
      rfl
    | some range =>
      rw [pushRange_of_some hrange, List.flatMap_singleton, Target.typesOn, if_pos rfl]
      rfl
  · intro other hother
    have helsewhere := Roles.place_elsewhere hplaces halt other hother
    rw [List.flatMap_eq_nil_iff]
    intro target htarget
    by_contra htypes
    exact helsewhere (ownMarks_within other _
      (List.mem_flatMap.mpr ⟨target, htarget, Target.mem_marks_of_typesOn htypes⟩))

end Recorded

/-- The else clauses that the walk comes to. -/
def alternatives (fields : FieldNames) (t : SyntaxTree) : List SyntaxTree :=
  (t.visited.filter fun node => node.kind = "if_expression").filterMap fun node =>
    node.childByFieldName fields "alternative"

theorem IsAlternative.mem {t node alt : SyntaxTree} (h : IsAlternative fields t node alt) :
    alt ∈ alternatives fields t := by
  obtain ⟨hmem, hkind, halt⟩ := h
  exact List.mem_filterMap.mpr
    ⟨node, List.mem_filter.mpr ⟨hmem, decide_eq_true hkind⟩, halt⟩

/-- The one else clause of a tree that has no other. -/
theorem eq_of_alternatives {t node alt clause : SyntaxTree}
    (halternatives : alternatives fields t = [clause]) (h : IsAlternative fields t node alt) :
    alt = clause := by
  have hmem := h.mem
  rw [halternatives] at hmem
  exact List.mem_singleton.mp hmem

/-! ## The type of the branch -/

/-- The else clause of an if expression gets the type of its body: a target has the range of the
    body, what the clause holds is what is answered for that range, and where rust-analyzer's tree
    holds the body as an expression that is the range of the expression it is answered for. -/
structure TypesElse (fields : FieldNames) (t node alt body : SyntaxTree) : Prop where
  range : ∀ branchRange, .IfElse branchRange alt.id ∈ collectOwnTargets fields node [] →
    textRangeOf body = some branchRange
  recorded : t.ids.Nodup → ∀ (KEY : RustDecoration → DecorationKey)
    (Value : RustDecoration → Type) (ModulePaths : Type) (answers : Answers Value ModulePaths),
    (decorate fields answers t : DecorationMap (rustDecorations KEY Value)).getAll .ResolvedType
        alt.id =
      ((textRangeOf body).bind answers.resolveExprType).toList
  typed : ∀ branchRange, .IfElse branchRange alt.id ∈ collectOwnTargets fields node [] →
    ∀ (Ty Function ResolvedType : Type) (sema : Semantics Ty Function ResolvedType)
      (syntax_ expr : SyntaxElement), syntax_.WellFormed → SyntaxElement.Inside expr syntax_ →
      expr.casts sema.isExpr = true → textRangeOf body = some expr.textRange →
      expr.textRange.start < expr.textRange.stop →
      ∃ found, findExprCovering sema syntax_ branchRange = some found ∧
        textRangeOf body = some found.textRange

/-- Every else clause gets the type of its body if and only if none has a comment in reach of a
    32-bit range as its first named child. -/
theorem typesElse_iff (fields : FieldNames) (t : SyntaxTree) (hgrammar : ElseGrammar fields t) :
    (∀ node alt body, IsAlternative fields t node alt → ElseClause alt body →
        TypesElse fields t node alt body) ↔
      ∀ node alt, IsAlternative fields t node alt → ∀ first, alt.namedChild 0 = some first →
        isComment first = true → textRangeOf first = none := by
  constructor
  · intro h node alt halt first hfirst hcomment
    by_contra hrange
    obtain ⟨range, hrange⟩ := Option.ne_none_iff_exists'.mp hrange
    obtain ⟨body, hclause⟩ := hgrammar node alt halt
    have htarget : .IfElse range alt.id ∈ collectOwnTargets fields node [] := by
      rw [collectOwnTargets_if halt hfirst, pushRange_of_some hrange]
      exact List.mem_singleton_self _
    have hbody := (h node alt body halt hclause).range range htarget
    rcases hclause.first with hisBody | ⟨comment, hisComment, _, hempty, hbehind⟩
    · rw [hfirst] at hisBody
      obtain rfl := Option.some.inj hisBody
      rw [not_isComment_of_isBody hclause.isBody] at hcomment
      cases hcomment
    · rw [hfirst] at hisComment
      obtain rfl := Option.some.inj hisComment
      exact textRangeOf_ne hempty hbehind hrange hbody
  · intro h node alt body halt hclause
    -- the first named child has the range of the body, or neither has one
    obtain ⟨block, hblock, hsame⟩ : ∃ block, alt.namedChild 0 = some block ∧
        textRangeOf block = textRangeOf body := by
      rcases hclause.first with hbody | ⟨comment, hcomment, hkind, _, hbehind⟩
      · exact ⟨body, hbody, rfl⟩
      · have hnone := h node alt halt comment hcomment hkind
        exact ⟨comment, hcomment, by rw [hnone, textRangeOf_behind hbehind hnone]⟩
    have hrange : ∀ branchRange, .IfElse branchRange alt.id ∈ collectOwnTargets fields node [] →
        textRangeOf body = some branchRange := by
      intro branchRange htarget
      rw [collectOwnTargets_if halt hblock] at htarget
      cases hbody : textRangeOf body with
      | none =>
        rw [pushRange_of_none (hsame.trans hbody)] at htarget
        cases htarget
      | some range =>
        rw [pushRange_of_some (hsame.trans hbody), List.mem_singleton] at htarget
        cases htarget
        rfl
    refine ⟨hrange, ?_, ?_⟩
    · intro hids KEY Value ModulePaths answers
      rw [← hsame]
      exact getAll_elseClause answers hids halt hblock
    · intro branchRange htarget Ty Function ResolvedType sema syntax_ expr hwf hinside hexpr hbody
        hempty
      have hbranch := hrange branchRange htarget
      rw [hbody] at hbranch
      obtain ⟨found, hfound, hsameRange⟩ := findExprCovering_of_inside hwf hinside hexpr
        (Option.some.inj hbranch) (Option.some.inj hbranch ▸ hempty)
      exact ⟨found, hfound, by rw [hbody, hbranch, hsameRange]⟩

/-! ## A comment before the branch -/

/-- The tail `if a { 1 } else ..` of a function, with its else clause. -/
def tailIf (ifEnd : Nat) (h : 22 ≤ ifEnd) (clause : SyntaxTree) : SyntaxTree :=
  .node ⟨0, "source_file", true, 0, ifEnd + 2, by omega⟩
    [.node ⟨1, "function_item", true, 0, ifEnd + 2, by omega⟩
      [.node ⟨2, "block", true, 20, ifEnd + 2, by omega⟩
        [.node ⟨3, "expression_statement", true, 22, ifEnd, h⟩
          [.node ⟨4, "if_expression", true, 22, ifEnd, h⟩
            [.node ⟨5, "identifier", true, 25, 26, by omega⟩ [],
              .node ⟨6, "block", true, 27, 32, by omega⟩ [], clause]]]]]

/-- The fields of the function, as the grammar names them. -/
def tailFields : FieldNames := fun id =>
  match id with
  | 2 => ["body"]
  | 5 => ["condition"]
  | 6 => ["consequence"]
  | 7 => ["alternative"]
  | _ => []

/-- `else { 2 }`. -/
def plainElse : SyntaxTree :=
  .node ⟨7, "else_clause", true, 33, 43, by omega⟩
    [.node ⟨8, "else", false, 33, 37, by omega⟩ [], .node ⟨9, "block", true, 38, 43, by omega⟩ []]

/-- `else /* c */ { 2 }`. -/
def commentElse : SyntaxTree :=
  .node ⟨7, "else_clause", true, 33, 51, by omega⟩
    [.node ⟨8, "else", false, 33, 37, by omega⟩ [],
      .node ⟨9, "block_comment", true, 38, 45, by omega⟩ [],
      .node ⟨10, "block", true, 46, 51, by omega⟩ []]

theorem plainElse_clause :
    ElseClause plainElse (.node ⟨9, "block", true, 38, 43, by omega⟩ []) where
  isBody := by decide
  children := ⟨[], [], rfl, fun _ h => absurd h List.not_mem_nil,
    fun _ h => absurd h List.not_mem_nil⟩

/-- In `if a { 1 } else { 2 }` the first named child is the branch. -/
theorem plain_else :
    ElseGrammar tailFields (tailIf 43 (by omega) plainElse) ∧
      ∀ node alt body, IsAlternative tailFields (tailIf 43 (by omega) plainElse) node alt →
        ElseClause alt body →
        TypesElse tailFields (tailIf 43 (by omega) plainElse) node alt body := by
  have halternatives :
      alternatives tailFields (tailIf 43 (by omega) plainElse) = [plainElse] := rfl
  have hgrammar : ElseGrammar tailFields (tailIf 43 (by omega) plainElse) := by
    intro node alt h
    rw [eq_of_alternatives halternatives h]
    exact ⟨_, plainElse_clause⟩
  refine ⟨hgrammar,
    (typesElse_iff tailFields (tailIf 43 (by omega) plainElse) hgrammar).mpr ?_⟩
  intro node alt h first hfirst hcomment
  rw [eq_of_alternatives halternatives h] at hfirst
  obtain rfl := Option.some.inj hfirst
  exact absurd hcomment (by decide)

/-- In `if a { 1 } else /* c */ { 2 }` the target has the range of the comment. -/
theorem comment_before_branch :
    ElseGrammar tailFields (tailIf 51 (by omega) commentElse) ∧
      (tailIf 51 (by omega) commentElse).ids.Nodup ∧
      collectTargets tailFields (tailIf 51 (by omega) commentElse) [] =
        [.Function 1 ⟨0, 53, by omega, by omega⟩, .IfElse ⟨38, 45, by omega, by omega⟩ 7] ∧
      ¬ ∀ node alt body,
        IsAlternative tailFields (tailIf 51 (by omega) commentElse) node alt →
        ElseClause alt body →
        TypesElse tailFields (tailIf 51 (by omega) commentElse) node alt body := by
  have halternatives :
      alternatives tailFields (tailIf 51 (by omega) commentElse) = [commentElse] := rfl
  have hclause : ElseClause commentElse (.node ⟨10, "block", true, 46, 51, by omega⟩ []) := by
    refine ⟨by decide, [.node ⟨9, "block_comment", true, 38, 45, by omega⟩ []], [], rfl, ?_, ?_⟩
    · intro comment hcomment
      obtain rfl := List.mem_singleton.mp hcomment
      decide
    · exact fun _ h => absurd h List.not_mem_nil
  refine ⟨?_, by decide, by decide, ?_⟩
  · intro node alt h
    rw [eq_of_alternatives halternatives h]
    exact ⟨_, hclause⟩
  · intro h
    obtain ⟨node, halt⟩ : ∃ node, IsAlternative tailFields
        (tailIf 51 (by omega) commentElse) node commentElse := by
      have hmem : commentElse ∈ alternatives tailFields
          (tailIf 51 (by omega) commentElse) := by
        rw [halternatives]
        exact List.mem_singleton_self _
      obtain ⟨node, hnode, hfield⟩ := List.mem_filterMap.mp hmem
      obtain ⟨hvisited, hkind⟩ := List.mem_filter.mp hnode
      exact ⟨node, hvisited, of_decide_eq_true hkind, hfield⟩
    have htarget : .IfElse ⟨38, 45, by omega, by omega⟩ commentElse.id ∈
        collectOwnTargets tailFields node [] := by
      rw [collectOwnTargets_if halt rfl]
      decide
    have hrange := (h node commentElse _ halt hclause).range _ htarget
    exact absurd hrange (by decide)

end Stiles.RustProvider
