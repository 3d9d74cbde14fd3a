import Stiles.General.Calls
import Stiles.Core.Lint

/-
  The tree walk (`tree_walker.rs`).

  `walkLints` borrows the lints of the tree's language and visits the root. `visitNode` lets each
  of them check the node, then visits the named children. The borrowed lints are positions in the
  caller's slice, and `WalkState.lints` is what the slice holds. `WalkState.calls` is a ghost: the
  calls made so far with their answers.

  `visitNode_eq_exec` says what a visit does: it makes the calls of the nodes it reaches, in order,
  until one fails (`Calls.runCalls`). `reached_eq_namedNodes` says which nodes it reaches.
-/

namespace Stiles

open Calls (Event runCalls stop found argsOf answersOf)

variable {D : DecorationTypes}

/-- One call of a lint, named by its position in the slice. -/
abbrev LintCall (D : DecorationTypes) :=
  Event Nat (DecoratedNode D) Diagnostic WalkLintsError

/-- Checks a node with what a position of the slice holds. -/
def checkAt : Option (Lint D) → DecoratedNode D →
    Except WalkLintsError (List Diagnostic) × Option (Lint D)
  | none, _ => (.ok [], none)
  | some lint, node => ((lint.checkNode node).1, some (lint.checkNode node).2)

/-! ## The walk -/

structure WalkState (D : DecorationTypes) where
  lints : Nat → Option (Lint D)
  diagnostics : List Diagnostic
  calls : List (LintCall D)

namespace WalkState

/-- One call of `Lint::check_node`. -/
def call (st : WalkState D) (i : Nat) (node : DecoratedNode D) :
    Except WalkLintsError (List Diagnostic) × WalkState D :=
  let (answer, lint) := checkAt (st.lints i) node
  (answer, { st with
    lints := Function.update st.lints i lint
    calls := st.calls ++ [⟨i, node, answer⟩] })

end WalkState

/-- The loop of `visit_node` over the lints. -/
def checkLints (node : DecoratedNode D) :
    List Nat → WalkState D → Except WalkLintsError Unit × WalkState D
  | [], st => (.ok (), st)
  | i :: rest, st =>
    match st.call i node with
    | (.error e, st) => (.error e, st)
    | (.ok found, st) =>
      checkLints node rest { st with diagnostics := st.diagnostics ++ found }

mutual

/-- `visit_node` on the subtree `t`, reached through `ancestors` in the tree that `view` shows. -/
def visitNode (view : DecoratedNode D) (lints : List Nat) :
    SyntaxTree → List SyntaxTree → WalkState D → Except WalkLintsError Unit × WalkState D
  | .node info children, ancestors, st =>
    match
      if info.named then
        checkLints (view.sibling ⟨.node info children, ancestors⟩) lints st
      else
        (.ok (), st)
    with
    | (.error e, st) => (.error e, st)
    | (.ok (), st) => visitChildren view lints children (.node info children :: ancestors) st

/-- The loop of `visit_node` over the named children. -/
def visitChildren (view : DecoratedNode D) (lints : List Nat) :
    List SyntaxTree → List SyntaxTree → WalkState D → Except WalkLintsError Unit × WalkState D
  | [], _, st => (.ok (), st)
  | t :: ts, ancestors, st =>
    if t.named then
      match visitNode view lints t ancestors st with
      | (.error e, st) => (.error e, st)
      | (.ok (), st) => visitChildren view lints ts ancestors st
    else
      visitChildren view lints ts ancestors st

end

/-- The positions of the lints whose language is the tree's. -/
def takingPart (tree : DecoratedTree D) (lints : List (Lint D)) : List Nat :=
  (List.range lints.length).filter fun i =>
    lints[i]?.any fun lint => lint.language = tree.language

/-- What a walk returns, what it leaves in the slice, and the calls it made. -/
structure Walked (D : DecorationTypes) where
  result : Except WalkLintsError (List Diagnostic)
  lints : Nat → Option (Lint D)
  calls : List (LintCall D)

def walkLints (tree : DecoratedTree D) (lints : List (Lint D)) : Walked D :=
  let root := tree.rootNode.1
  let (visited, st) := visitNode root (takingPart tree lints) root.node.tree root.node.ancestors
    { lints := fun i => lints[i]?, diagnostics := [], calls := [] }
  { result := visited.map fun _ => st.diagnostics, lints := st.lints, calls := st.calls }

/-- `BorrowedPass` forwards every call, so the pass stands for it. -/
def walk (tree : DecoratedTree D) (passes : List (LintPass D)) : Walked D :=
  walkLints tree (passes.map Lint.unchecked)

/-! ## The visit as a run of calls -/

/-- The state after the calls `cs`, and why they stopped. -/
def exec (cs : List (Nat × DecoratedNode D)) (st : WalkState D) :
    Except WalkLintsError Unit × WalkState D :=
  let ran := runCalls checkAt cs st.lints
  ((stop ran.1).elim (.ok ()) .error,
    { lints := ran.2
      diagnostics := st.diagnostics ++ found ran.1
      calls := st.calls ++ ran.1 })

@[simp] theorem exec_nil (st : WalkState D) : exec [] st = (.ok (), st) := by
  simp [exec, runCalls]

/-- Calls that stopped are the end of the visit, and calls that did not go on to the next ones. -/
theorem exec_append (xs ys : List (Nat × DecoratedNode D)) (st : WalkState D) :
    exec (xs ++ ys) st =
      match exec xs st with
      | (.error e, st) => (.error e, st)
      | (.ok (), st) => exec ys st := by
  simp only [exec, Calls.runCalls_append]
  cases h : stop (runCalls checkAt xs st.lints).1 with
  | some e => simp [h]
  | none => simp [h, Calls.stop_append]

theorem exec_singleton (i : Nat) (node : DecoratedNode D) (st : WalkState D) :
    exec [(i, node)] st =
      match st.call i node with
      | (.error e, st) => (.error e, st)
      | (.ok found, st) => (.ok (), { st with diagnostics := st.diagnostics ++ found }) := by
  unfold exec WalkState.call
  cases h : (checkAt (st.lints i) node).1 with
  | error e =>
    rw [Calls.runCalls_cons_error checkAt h]
    simp [h, Calls.stop_cons, Event.error?, Event.found]
  | ok ds =>
    rw [Calls.runCalls_cons_ok checkAt h]
    simp [h, runCalls, Calls.stop_cons, Event.error?, Event.found]

/-- The calls of one node. -/
def callsOf (lints : List Nat) (node : DecoratedNode D) : List (Nat × DecoratedNode D) :=
  lints.map fun i => (i, node)

theorem checkLints_eq_exec (node : DecoratedNode D) (lints : List Nat) (st : WalkState D) :
    checkLints node lints st = exec (callsOf lints node) st := by
  induction lints generalizing st with
  | nil => simp [checkLints, callsOf]
  | cons i rest ih =>
    have hsplit : callsOf (i :: rest) node = [(i, node)] ++ callsOf rest node := rfl
    rw [hsplit, exec_append, exec_singleton, checkLints]
    obtain ⟨answer, st'⟩ := st.call i node
    cases answer with
    | error e => rfl
    | ok ds => exact ih _

mutual

/-- The nodes that a visit of the subtree `t` reaches and lets the lints check. -/
def reachedFrom (view : DecoratedNode D) :
    SyntaxTree → List SyntaxTree → List (DecoratedNode D)
  | .node info children, ancestors =>
    (if info.named then [view.sibling ⟨.node info children, ancestors⟩] else []) ++
      reachedFromAll view children (.node info children :: ancestors)

def reachedFromAll (view : DecoratedNode D) :
    List SyntaxTree → List SyntaxTree → List (DecoratedNode D)
  | [], _ => []
  | t :: ts, ancestors =>
    (if t.named then reachedFrom view t ancestors else []) ++ reachedFromAll view ts ancestors

end

mutual

/-- A visit makes the calls of the nodes it reaches, until one fails. -/
theorem visitNode_eq_exec (view : DecoratedNode D) (lints : List Nat) (t : SyntaxTree)
    (ancestors : List SyntaxTree) (st : WalkState D) :
    visitNode view lints t ancestors st =
      exec ((reachedFrom view t ancestors).flatMap (callsOf lints)) st := by
  cases t with
  | node info children =>
    rw [visitNode, reachedFrom, List.flatMap_append, exec_append]
    by_cases hnamed : info.named = true
    · simp only [hnamed, if_true, List.flatMap_cons, List.flatMap_nil, List.append_nil]
      rw [checkLints_eq_exec]
      split <;> simp_all [visitChildren_eq_exec view lints children]
    · simp only [hnamed, if_false, Bool.false_eq_true, List.flatMap_nil, exec_nil]
      exact visitChildren_eq_exec view lints children _ st

theorem visitChildren_eq_exec (view : DecoratedNode D) (lints : List Nat) (ts : List SyntaxTree)
    (ancestors : List SyntaxTree) (st : WalkState D) :
    visitChildren view lints ts ancestors st =
      exec ((reachedFromAll view ts ancestors).flatMap (callsOf lints)) st := by
  cases ts with
  | nil => simp [visitChildren, reachedFromAll]
  | cons t ts =>
    rw [visitChildren, reachedFromAll, List.flatMap_append, exec_append]
    by_cases hnamed : t.named = true
    · simp only [hnamed, if_true]
      rw [visitNode_eq_exec view lints t]
      split <;> simp_all [visitChildren_eq_exec view lints ts]
    · simp only [hnamed, if_false, Bool.false_eq_true, List.flatMap_nil, exec_nil]
      exact visitChildren_eq_exec view lints ts _ st

end

/-! ## The nodes a visit reaches -/

mutual

theorem reachedFrom_eq_filter (view : DecoratedNode D) (t : SyntaxTree)
    (ancestors : List SyntaxTree)
    (h : ∀ node ∈ view.nodesFrom t ancestors, node.isNamed = true →
      ∀ a ∈ node.node.ancestors, a.named = true) :
    reachedFrom view t ancestors = (view.nodesFrom t ancestors).filter DecoratedNode.isNamed := by
  cases t with
  | node info children =>
    rw [DecoratedNode.nodesFrom] at h
    have hbelow := reachedFromAll_eq_filter view children (.node info children :: ancestors)
      fun node hnode => h node (List.mem_cons_of_mem _ hnode)
    rw [reachedFrom, DecoratedNode.nodesFrom, List.filter_cons, hbelow]
    have hself : (view.sibling ⟨.node info children, ancestors⟩).isNamed = info.named := rfl
    rw [hself]
    cases info.named <;> rfl

/-- A child that is not named has no named node below it, so skipping it loses nothing. -/
theorem reachedFromAll_eq_filter (view : DecoratedNode D) (ts : List SyntaxTree)
    (ancestors : List SyntaxTree)
    (h : ∀ node ∈ view.nodesFromAll ts ancestors, node.isNamed = true →
      ∀ a ∈ node.node.ancestors, a.named = true) :
    reachedFromAll view ts ancestors =
      (view.nodesFromAll ts ancestors).filter DecoratedNode.isNamed := by
  cases ts with
  | nil => rfl
  | cons t ts =>
    rw [DecoratedNode.nodesFromAll] at h
    have hfirst : ∀ node ∈ view.nodesFrom t ancestors, node.isNamed = true →
        ∀ a ∈ node.node.ancestors, a.named = true :=
      fun node hnode => h node (List.mem_append_left _ hnode)
    have hrest := reachedFromAll_eq_filter view ts ancestors
      fun node hnode => h node (List.mem_append_right _ hnode)
    rw [reachedFromAll, DecoratedNode.nodesFromAll, List.filter_append, hrest]
    by_cases hnamed : t.named = true
    · rw [if_pos hnamed, reachedFrom_eq_filter view t ancestors hfirst]
    · have hnone : (view.nodesFrom t ancestors).filter DecoratedNode.isNamed = [] := by
        rw [List.filter_eq_nil_iff]
        intro node hnode hisNamed
        rcases view.nodesFrom_through t ancestors node hnode with htree | hmem
        · apply hnamed
          rw [← htree]
          exact hisNamed
        · exact hnamed (hfirst node hnode hisNamed t hmem)
      rw [if_neg hnamed, hnone]

end

mutual

/-- A node that a visit reaches shares everything but its cursor with the view. -/
theorem reachedFrom_view (view : DecoratedNode D) (t : SyntaxTree) (ancestors : List SyntaxTree) :
    ∀ node ∈ reachedFrom view t ancestors,
      node.decorations = view.decorations ∧ node.file = view.file ∧ node.source = view.source := by
  intro node hnode
  cases t with
  | node info children =>
    rw [reachedFrom, List.mem_append] at hnode
    rcases hnode with hnode | hnode
    · split at hnode
      · rw [List.mem_singleton] at hnode
        subst hnode
        exact ⟨rfl, rfl, rfl⟩
      · cases hnode
    · exact reachedFromAll_view view children _ node hnode

theorem reachedFromAll_view (view : DecoratedNode D) (ts : List SyntaxTree)
    (ancestors : List SyntaxTree) :
    ∀ node ∈ reachedFromAll view ts ancestors,
      node.decorations = view.decorations ∧ node.file = view.file ∧ node.source = view.source := by
  intro node hnode
  cases ts with
  | nil => simp [reachedFromAll] at hnode
  | cons t ts =>
    rw [reachedFromAll, List.mem_append] at hnode
    rcases hnode with hnode | hnode
    · split at hnode
      · exact reachedFrom_view view t ancestors node hnode
      · cases hnode
    · exact reachedFromAll_view view ts ancestors node hnode

end

/-- The nodes that a walk of the tree reaches. -/
def DecoratedTree.reached (tree : DecoratedTree D) : List (DecoratedNode D) :=
  reachedFrom tree.rootNode.1 tree.rootNode.1.node.tree tree.rootNode.1.node.ancestors

theorem reached_eq_namedNodes (tree : DecoratedTree D)
    (h : tree.rootNode.1.NamedThroughNamed) : tree.reached = tree.namedNodes :=
  reachedFrom_eq_filter _ _ _ h

/-! ## What a walk returns -/

/-- The calls of a walk that nothing stops. -/
def callOrder (tree : DecoratedTree D) (lints : List (Lint D)) : List (Nat × DecoratedNode D) :=
  tree.reached.flatMap (callsOf (takingPart tree lints))

/-- The calls a walk makes, as a run over the slice. -/
def walkRun (tree : DecoratedTree D) (lints : List (Lint D)) :
    List (LintCall D) × (Nat → Option (Lint D)) :=
  runCalls checkAt (callOrder tree lints) fun i => lints[i]?

theorem walkLints_calls (tree : DecoratedTree D) (lints : List (Lint D)) :
    (walkLints tree lints).calls = (walkRun tree lints).1 := by
  simp only [walkLints, visitNode_eq_exec]
  exact List.nil_append _

theorem walkLints_result (tree : DecoratedTree D) (lints : List (Lint D)) :
    (walkLints tree lints).result =
      match stop (walkLints tree lints).calls with
      | some e => .error e
      | none => .ok (found (walkLints tree lints).calls) := by
  rw [walkLints_calls]
  simp only [walkLints, visitNode_eq_exec, exec, List.nil_append]
  change Except.map _ (Option.elim (stop (walkRun tree lints).1) _ _) = _
  cases stop (walkRun tree lints).1 <;> rfl

theorem walkLints_ok_iff {tree : DecoratedTree D} {lints : List (Lint D)} {ds : List Diagnostic} :
    (walkLints tree lints).result = .ok ds ↔
      stop (walkLints tree lints).calls = none ∧ ds = found (walkLints tree lints).calls := by
  rw [walkLints_result]
  cases stop (walkLints tree lints).calls with
  | some e => simp
  | none => simp [eq_comm]

theorem walkLints_error_iff {tree : DecoratedTree D} {lints : List (Lint D)}
    {e : WalkLintsError} :
    (walkLints tree lints).result = .error e ↔ stop (walkLints tree lints).calls = some e := by
  rw [walkLints_result]
  split <;> simp_all

/-! ## Which lints take part -/

theorem mem_takingPart {tree : DecoratedTree D} {lints : List (Lint D)} {i : Nat} :
    i ∈ takingPart tree lints ↔ ∃ lint, lints[i]? = some lint ∧ lint.language = tree.language := by
  unfold takingPart
  rw [List.mem_filter, List.mem_range]
  constructor
  · rintro ⟨hi, hany⟩
    exact ⟨lints[i], List.getElem?_eq_getElem hi, by
      simpa [List.getElem?_eq_getElem hi] using hany⟩
  · rintro ⟨lint, hlint, hlang⟩
    exact ⟨(List.getElem?_eq_some_iff.mp hlint).1, by simp [hlint, hlang]⟩

/-- Whether a lint of the slice takes part depends on its language alone. -/
theorem takingPart_iff {tree : DecoratedTree D} {lints : List (Lint D)} {i : Nat} {lint : Lint D}
    (hlint : lints[i]? = some lint) :
    i ∈ takingPart tree lints ↔ lint.language = tree.language := by
  rw [mem_takingPart, hlint]
  constructor
  · intro htaking
    obtain ⟨other, hother, hlang⟩ := htaking
    rw [Option.some.inj hother]
    exact hlang
  · intro hlang
    exact ⟨lint, rfl, hlang⟩

theorem takingPart_nodup (tree : DecoratedTree D) (lints : List (Lint D)) :
    (takingPart tree lints).Nodup :=
  List.nodup_range.filter _

/-- A lint that takes part has every reached node in the call order once; another has none. -/
theorem callOrder_filter (tree : DecoratedTree D) (lints : List (Lint D)) (i : Nat) :
    ((callOrder tree lints).filter fun c => c.1 = i).map Prod.snd =
      if i ∈ takingPart tree lints then tree.reached else [] := by
  have hnode : ∀ node : DecoratedNode D,
      ((callsOf (takingPart tree lints) node).filter fun c => c.1 = i).map Prod.snd =
        if i ∈ takingPart tree lints then [node] else [] := by
    intro node
    unfold callsOf
    rw [List.filter_map, List.map_map]
    have hfilter : (takingPart tree lints).filter
        ((fun c : Nat × DecoratedNode D => decide (c.1 = i)) ∘ fun j => (j, node)) =
        if i ∈ takingPart tree lints then [i] else [] := by
      refine (List.filter_eq i).trans ?_
      rw [List.Nodup.count (takingPart_nodup tree lints)]
      split <;> rfl
    rw [hfilter]
    split <;> rfl
  unfold callOrder
  induction tree.reached with
  | nil => simp
  | cons node rest ih =>
    rw [List.flatMap_cons, List.filter_append, List.map_append, hnode, ih]
    split <;> rfl

end Stiles
