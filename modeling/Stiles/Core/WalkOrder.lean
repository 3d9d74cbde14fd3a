import Stiles.Core.TreeWalker

/-
  What a walk calls, in which order, and with which result.

  * `walkLints_in_order`: every lint of the tree's language checks every named node once, in
    pre-order; the walk stops at the first call that fails.
  * `walkLints_isolates`: what one pass contributes does not depend on the other lints.
  * `walkLints_agrees_with_walk`: the declarations change the result of a walk only at a diagnostic
    under an undeclared rule.
-/

namespace Stiles

open Calls (Event runCalls stop found findings argsOf answersOf solo cut)

variable {D : DecorationTypes}

/-! ## Every node, every lint, in order -/

/-- A lint after it checked `nodes`. -/
def Lint.after (lint : Lint D) (nodes : List (DecoratedNode D)) : Lint D :=
  nodes.foldl (fun lint node => (lint.checkNode node).2) lint

theorem foldl_checkAt (lint : Lint D) (nodes : List (DecoratedNode D)) :
    nodes.foldl (fun cell node => (checkAt cell node).2) (some lint) = some (lint.after nodes) := by
  induction nodes generalizing lint with
  | nil => rfl
  | cons node nodes ih => exact ih _

/-- A call is of a lint that takes part in the walk, on a node that the walk reaches. -/
theorem call_reached {tree : DecoratedTree D} {lints : List (Lint D)} {c : LintCall D}
    (hc : c ∈ (walkLints tree lints).calls) :
    c.callee ∈ takingPart tree lints ∧ c.arg ∈ tree.reached := by
  rw [walkLints_calls] at hc
  have hlabel : c.label ∈ callOrder tree lints :=
    (Calls.labels_prefix checkAt _ _).subset (List.mem_map_of_mem hc)
  unfold callOrder callsOf at hlabel
  simp only [List.mem_flatMap, List.mem_map] at hlabel
  obtain ⟨node, hnode, i, hi, heq⟩ := hlabel
  rw [Event.label, Prod.mk.injEq] at heq
  rw [← heq.1, ← heq.2]
  exact ⟨hi, hnode⟩

/-- The node of a call shares everything but its cursor with the root. -/
theorem call_view {tree : DecoratedTree D} {lints : List (Lint D)} {c : LintCall D}
    (hc : c ∈ (walkLints tree lints).calls) :
    c.arg.decorations = tree.rootNode.1.decorations ∧ c.arg.file = tree.file ∧
      c.arg.source = tree.source :=
  reachedFrom_view _ _ _ _ (call_reached hc).2

/-- Every call is answered by its lint, in the state that the lint's earlier calls left. -/
theorem call_answer {tree : DecoratedTree D} {lints : List (Lint D)}
    {before after : List (LintCall D)} {c : LintCall D}
    (h : (walkLints tree lints).calls = before ++ c :: after) :
    ∃ lint, lints[c.callee]? = some lint ∧ lint.language = tree.language ∧
      c.answer = ((lint.after (argsOf c.callee before)).checkNode c.arg).1 := by
  have hmem : c ∈ (walkLints tree lints).calls := by
    rw [h]
    exact List.mem_append_right _ List.mem_cons_self
  obtain ⟨lint, hlint, hlang⟩ := mem_takingPart.mp (call_reached hmem).1
  rw [walkLints_calls] at h
  have hans := Calls.answer_of_split checkAt _ _ h
  rw [hlint, foldl_checkAt] at hans
  exact ⟨lint, hlint, hlang, hans⟩

/-- The nodes that the lint at one position checked in a walk that nothing stopped. -/
theorem argsOf_walkLints {tree : DecoratedTree D} {lints : List (Lint D)}
    (hs : stop (walkLints tree lints).calls = none) (i : Nat) :
    argsOf i (walkLints tree lints).calls =
      if i ∈ takingPart tree lints then tree.reached else [] := by
  rw [walkLints_calls] at hs ⊢
  rw [Calls.argsOf_eq_labels, walkRun, Calls.labels_of_stop_none checkAt _ _ hs,
    callOrder_filter]

/-- Under the guarantee of tree-sitter, the walk makes the calls of `namedNodes` in pre-order, at
    one node those of the lints of the tree's language in list order. It returns what the calls
    found, in that order. A call that fails is the last one and gives the walk its error. -/
theorem walkLints_in_order (tree : DecoratedTree D) (lints : List (Lint D))
    (hnamed : tree.rootNode.1.NamedThroughNamed) :
    let walked := walkLints tree lints
    let order := tree.namedNodes.flatMap (callsOf (takingPart tree lints))
    (∀ ds, walked.result = .ok ds →
      walked.calls.map Event.label = order ∧
      (∀ c ∈ walked.calls, c.answer = .ok c.found) ∧
      ds = found walked.calls ∧
      ∀ i lint, lints[i]? = some lint →
        argsOf i walked.calls = if lint.language = tree.language then tree.namedNodes else []) ∧
    (∀ e, walked.result = .error e →
      ∃ before last, walked.calls = before ++ [last] ∧
        walked.calls.map Event.label <+: order ∧
        (∀ c ∈ before, c.answer = .ok c.found) ∧ last.answer = .error e) ∧
    ∀ before c after, walked.calls = before ++ c :: after →
      ∃ lint, lints[c.callee]? = some lint ∧ lint.language = tree.language ∧
        c.answer = ((lint.after (argsOf c.callee before)).checkNode c.arg).1 := by
  intro walked order
  have horder : callOrder tree lints = order := by
    unfold callOrder
    rw [reached_eq_namedNodes tree hnamed]
  refine ⟨?_, ?_, fun before c after h => call_answer h⟩
  · intro ds hok
    obtain ⟨hs, hds⟩ := walkLints_ok_iff.mp hok
    refine ⟨?_, Calls.stop_eq_none.mp hs, hds, ?_⟩
    · rw [← horder]
      have hs' := hs
      rw [walkLints_calls] at hs'
      change ((walkLints tree lints).calls).map Event.label = _
      rw [walkLints_calls]
      exact Calls.labels_of_stop_none checkAt _ _ hs'
    · intro i lint hlint
      rw [argsOf_walkLints hs, reached_eq_namedNodes tree hnamed]
      simp only [takingPart_iff hlint]
  · intro e herr
    have hs := walkLints_error_iff.mp herr
    have hfront : (walkLints tree lints).calls.map Event.label <+: callOrder tree lints := by
      rw [walkLints_calls]
      exact Calls.labels_prefix checkAt _ _
    rw [walkLints_calls] at hs
    obtain ⟨before, last, hcalls, hlast, hbefore⟩ := Calls.events_of_stop_some checkAt _ _ hs
    rw [← horder]
    exact ⟨before, last, (walkLints_calls tree lints).trans hcalls, hfront, hbefore, hlast⟩

/-- One type of decoration: a note. -/
def noteTypes : DecorationTypes :=
  { Ty := Unit, KEY := fun _ => ⟨"stiles::Note"⟩, Value := fun _ => String }

/-- `abc;`: a root over an identifier and an anonymous semicolon. -/
def statementTree : SyntaxTree :=
  .node ⟨0, "expression_statement", true, 0, 4, by decide⟩
    [.node ⟨1, "identifier", true, 0, 3, by decide⟩ [], .node ⟨2, ";", false, 3, 4, by decide⟩ []]

def statementFile : DecoratedTree noteTypes :=
  DecoratedTree.new statementTree .Rust "abc;" ⟨"src/lib.rs"⟩

/-- A pass that numbers the nodes it checks and reports each one. -/
def numberingPass (start : Nat) : LintPass noteTypes where
  State := Nat
  state := start
  languageOf _ := .Rust
  configureOf n _ := (.ok (), n)
  checkNodeOf n node :=
    (.ok [Diagnostic.new ⟨"lint.number"⟩ .Warn (toString n) node.span], n + 1)

def numberingLint (start : Nat) : Lint noteTypes := Lint.new (numberingPass start) [⟨"lint.number"⟩]

theorem walkLints_in_order_statement :
    argsOf 0 (walkLints statementFile [numberingLint 0]).calls = statementFile.namedNodes :=
  ((walkLints_in_order statementFile [numberingLint 0] (by decide)).1 _ rfl).2.2.2 0 _ rfl

/-! ## One pass among others -/

/-- As long as a lint answers without an error, it answers what its bare pass answers. -/
theorem solo_checkAt (lint : Lint D) (nodes : List (DecoratedNode D))
    (hok : ∀ answer ∈ solo checkAt (some lint) nodes, ∃ ds, answer = .ok ds) :
    solo checkAt (some lint) nodes = solo checkAt (some (Lint.unchecked lint.pass)) nodes := by
  induction nodes generalizing lint with
  | nil => rfl
  | cons node nodes ih =>
    simp only [solo, checkAt] at hok ⊢
    obtain ⟨ds, hds⟩ := hok _ List.mem_cons_self
    have hjudge := hds
    rw [Lint.checkNode_eq] at hjudge
    have hrest := ih (lint.checkNode node).2 fun answer h => hok answer (List.mem_cons_of_mem _ h)
    rw [hds, (Lint.judge_permits hjudge).1, hrest]
    congr 2
    rw [Lint.checkNode_eq, Lint.checkNode_eq]
    rfl

theorem answersOf_walkLints (tree : DecoratedTree D) (lints : List (Lint D)) (i : Nat) :
    answersOf i (walkLints tree lints).calls =
      solo checkAt lints[i]? (argsOf i (walkLints tree lints).calls) := by
  rw [walkLints_calls]
  exact Calls.answersOf_runCalls checkAt _ _ i

/-- In a walk that succeeds, a lint answers what its pass answers alone. -/
theorem answersOf_walkLints_ok {tree : DecoratedTree D} {lints : List (Lint D)}
    (hs : stop (walkLints tree lints).calls = none) {i : Nat} {lint : Lint D}
    (hlint : lints[i]? = some lint) :
    answersOf i (walkLints tree lints).calls =
      solo checkAt (some (Lint.unchecked lint.pass))
        (if lint.language = tree.language then tree.reached else []) := by
  have hans := answersOf_walkLints tree lints i
  rw [hlint] at hans
  have hok : ∀ answer ∈ solo checkAt (some lint) (argsOf i (walkLints tree lints).calls),
      ∃ ds, answer = .ok ds := by
    intro answer h
    rw [← hans, answersOf, List.mem_map] at h
    obtain ⟨c, hc, rfl⟩ := h
    exact ⟨c.found, Calls.stop_eq_none.mp hs c (List.mem_of_mem_filter hc)⟩
  rw [hans, solo_checkAt lint _ hok, argsOf_walkLints hs]
  simp only [takingPart_iff hlint]

/-- The diagnostics that the lint at position `i` contributes to a walk. -/
def contributed (i : Nat) (calls : List (LintCall D)) : List Diagnostic :=
  ((findings calls).filter fun f => f.1 = i).map Prod.snd

/-- Two walks of one tree that both succeed. A pass that is in both lists, at any position and
    under any declaration, contributes the same diagnostics to both results. -/
theorem walkLints_isolates (tree : DecoratedTree D) (lints lints' : List (Lint D))
    (i j : Nat) (lint lint' : Lint D) (hi : lints[i]? = some lint) (hj : lints'[j]? = some lint')
    (hpass : lint.pass = lint'.pass) (ds ds' : List Diagnostic)
    (hok : (walkLints tree lints).result = .ok ds)
    (hok' : (walkLints tree lints').result = .ok ds') :
    ds = (findings (walkLints tree lints).calls).map Prod.snd ∧
      ds' = (findings (walkLints tree lints').calls).map Prod.snd ∧
      contributed i (walkLints tree lints).calls = contributed j (walkLints tree lints').calls := by
  obtain ⟨hs, hds⟩ := walkLints_ok_iff.mp hok
  obtain ⟨hs', hds'⟩ := walkLints_ok_iff.mp hok'
  refine ⟨?_, ?_, ?_⟩
  · rw [Calls.findings_map_snd, hds]
  · rw [Calls.findings_map_snd, hds']
  · have hlang : lint.language = lint'.language := by
      unfold Lint.language
      rw [hpass]
    unfold contributed
    rw [Calls.findings_filter, Calls.findings_filter, answersOf_walkLints_ok hs hi,
      answersOf_walkLints_ok hs' hj, hlang, hpass]

/-- The numbering pass alone, and behind another one. -/
theorem walkLints_isolates_statement :
    contributed 0 (walkLints statementFile [numberingLint 5]).calls =
      contributed 1 (walkLints statementFile [numberingLint 0, numberingLint 5]).calls :=
  (walkLints_isolates statementFile [numberingLint 5] [numberingLint 0, numberingLint 5] 0 1
    (numberingLint 5) (numberingLint 5) rfl rfl rfl _ _ rfl rfl).2.2

/-! ## The checked walk and the unchecked walk -/

theorem after_declared (lint : Lint D) (nodes : List (DecoratedNode D)) :
    (lint.after nodes).declared = lint.declared := by
  induction nodes generalizing lint with
  | nil => rfl
  | cons node nodes ih => exact (ih _).trans (Lint.checkNode_declared lint node)

/-- What the declarations of the slice make of a call's answer. -/
def judgeAt (lints : List (Lint D)) (i : Nat) (node : DecoratedNode D)
    (answer : Except WalkLintsError (List Diagnostic)) : Except WalkLintsError (List Diagnostic) :=
  match lints[i]? with
  | none => answer
  | some lint => Lint.judge lint.declared node answer

/-- Whether every diagnostic of a call is under a rule that its lint declared. -/
def Permitted (lints : List (Lint D)) (c : LintCall D) : Prop :=
  ∀ lint, lints[c.callee]? = some lint → ∀ d ∈ c.found, lint.declared.permits d.ruleId = true

/-- A walk that succeeds returns nothing that its lints did not declare. -/
theorem permitted_of_stop_none {tree : DecoratedTree D} {lints : List (Lint D)}
    (hs : stop (walkLints tree lints).calls = none) {c : LintCall D}
    (hc : c ∈ (walkLints tree lints).calls) : Permitted lints c := by
  intro lint hlint d hd
  obtain ⟨before, after, hsplit⟩ := List.append_of_mem hc
  obtain ⟨lint', hlint', _, hans⟩ := call_answer hsplit
  rw [hlint] at hlint'
  cases hlint'
  rw [Calls.stop_eq_none.mp hs c hc, Lint.checkNode_eq] at hans
  have hpermits := (Lint.judge_permits hans.symm).2 d hd
  rwa [after_declared] at hpermits

/-- A lint and the same pass without a declaration, at position `i` of the two slices. -/
def SamePass (lints : List (Lint D)) (i : Nat) (bare checked : Option (Lint D)) : Prop :=
  match lints[i]?, bare, checked with
  | none, none, none => True
  | some lint, some bare, some checked =>
    bare = Lint.unchecked checked.pass ∧ checked.declared = lint.declared
  | _, _, _ => False

theorem samePass_init (lints : List (Lint D)) (i : Nat) :
    SamePass lints i (((lints.map Lint.pass).map Lint.unchecked)[i]?) lints[i]? := by
  unfold SamePass
  simp only [List.getElem?_map]
  cases lints[i]? <;> simp

theorem samePass_call (lints : List (Lint D)) (i : Nat) (node : DecoratedNode D)
    (bare checked : Option (Lint D)) (h : SamePass lints i bare checked) :
    (checkAt checked node).1 = judgeAt lints i node (checkAt bare node).1 ∧
      SamePass lints i (checkAt bare node).2 (checkAt checked node).2 := by
  unfold SamePass judgeAt at *
  cases hlint : lints[i]? with
  | none => cases bare <;> cases checked <;> simp_all [checkAt]
  | some lint =>
    cases bare with
    | none => cases checked <;> simp_all
    | some bare =>
      cases checked with
      | none => simp_all
      | some checked =>
        rw [hlint] at h
        obtain ⟨rfl, hdeclared⟩ := h
        simp only [checkAt]
        refine ⟨?_, ?_, ?_⟩
        · rw [Lint.checkNode_eq checked, hdeclared]
        · rw [Lint.checkNode_eq checked, Lint.checkNode_eq (Lint.unchecked checked.pass)]
          rfl
        · rw [Lint.checkNode_declared, hdeclared]

theorem takingPart_unchecked (tree : DecoratedTree D) (lints : List (Lint D)) :
    takingPart tree ((lints.map Lint.pass).map Lint.unchecked) = takingPart tree lints := by
  unfold takingPart
  rw [List.length_map, List.length_map]
  refine List.filter_congr fun i _ => ?_
  rw [List.getElem?_map, List.getElem?_map]
  cases lints[i]? <;> rfl

/-- The checked walk makes the calls of the unchecked one, judged, up to the first that fails. -/
theorem walkLints_eq_cut (tree : DecoratedTree D) (lints : List (Lint D)) :
    (walkLints tree lints).calls =
      cut ((walk tree (lints.map Lint.pass)).calls.map (Event.judged (judgeAt lints))) := by
  unfold walk
  rw [walkLints_calls, walkLints_calls]
  unfold walkRun callOrder
  rw [takingPart_unchecked]
  refine Calls.runCalls_judged checkAt (judgeAt lints) (R := SamePass lints)
    (fun i node bare checked h => samePass_call lints i node bare checked h) ?_ _ _ _
    (fun i => samePass_init lints i)
  intro i node e
  unfold judgeAt
  cases lints[i]? with
  | none => exact ⟨e, rfl⟩
  | some lint => exact ⟨e, rfl⟩

theorem judged_of_permitted {lints : List (Lint D)} {c : LintCall D} (h : Permitted lints c) :
    c.judged (judgeAt lints) = c := by
  obtain ⟨i, node, answer⟩ := c
  unfold Event.judged judgeAt
  cases hlint : lints[i]? with
  | none => rfl
  | some lint =>
    cases answer with
    | error e => rfl
    | ok ds =>
      have hok : Lint.judge lint.declared node (.ok ds) = .ok ds :=
        Lint.judge_ok_iff.mpr ⟨rfl, h lint hlint⟩
      simp only [hok]

theorem judged_of_all_permitted {lints : List (Lint D)} {cs : List (LintCall D)}
    (h : ∀ c ∈ cs, Permitted lints c) : cs.map (Event.judged (judgeAt lints)) = cs :=
  (List.map_congr_left fun c hc => judged_of_permitted (h c hc)).trans (List.map_id cs)

/-- A call with a diagnostic under an undeclared rule is judged an error about the first one. -/
theorem judged_of_not_permitted {lints : List (Lint D)} {c : LintCall D}
    (h : ¬ Permitted lints c) :
    ∃ lint rules stray, lints[c.callee]? = some lint ∧ lint.declared = .Rules rules ∧
      (c.found.find? fun d => !rules.contains d.ruleId) = some stray ∧
      (c.judged (judgeAt lints)).answer =
        .error (.Undeclared ⟨stray.ruleId, rules, c.arg.span⟩) := by
  unfold Permitted at h
  push Not at h
  obtain ⟨lint, hlint, d, hd, hpermits⟩ := h
  cases hdeclared : lint.declared with
  | Unchecked => simp [hdeclared, Declared.permits] at hpermits
  | Rules rules =>
    rw [hdeclared, Declared.permits] at hpermits
    have hsome : (c.found.find? fun d => !rules.contains d.ruleId).isSome := by
      rw [List.find?_isSome]
      exact ⟨d, hd, by simpa using hpermits⟩
    obtain ⟨stray, hstray⟩ := Option.isSome_iff_exists.mp hsome
    have hans : c.answer = .ok c.found := by
      obtain ⟨i, node, answer⟩ := c
      cases answer with
      | error e => simp [Event.found] at hd
      | ok ds => rfl
    refine ⟨lint, rules, stray, hlint, hdeclared, hstray, ?_⟩
    simp only [Event.judged, judgeAt, hlint, hdeclared, hans, Lint.judge, hstray]

/-- The first element that lacks a property. -/
theorem exists_first_not {α : Type*} {P : α → Prop} {xs : List α} (h : ¬ ∀ x ∈ xs, P x) :
    ∃ before x after, xs = before ++ x :: after ∧ (∀ b ∈ before, P b) ∧ ¬ P x := by
  induction xs with
  | nil => simp at h
  | cons x xs ih =>
    by_cases hx : P x
    · have hrest : ¬ ∀ y ∈ xs, P y := fun hall =>
        h fun y hy => (List.mem_cons.mp hy).elim (fun e => e ▸ hx) (hall y)
      obtain ⟨before, y, after, rfl, hbefore, hy⟩ := ih hrest
      exact ⟨x :: before, y, after, rfl, by simpa [hx] using hbefore, hy⟩
    · exact ⟨[], x, xs, rfl, by simp, hx⟩

/-- Where every diagnostic is permitted, the declarations change nothing. -/
theorem walkLints_calls_of_permitted {tree : DecoratedTree D} {lints : List (Lint D)}
    (h : ∀ c ∈ (walk tree (lints.map Lint.pass)).calls, Permitted lints c) :
    (walkLints tree lints).calls = (walk tree (lints.map Lint.pass)).calls := by
  rw [walkLints_eq_cut, judged_of_all_permitted h]
  unfold walk
  rw [walkLints_calls]
  exact Calls.cut_runCalls checkAt _ _

/-- The first call with a diagnostic that is not permitted is the last one of the checked walk, and
    gives it its error. -/
theorem walkLints_strays {tree : DecoratedTree D} {lints : List (Lint D)}
    (h : ¬ ∀ c ∈ (walk tree (lints.map Lint.pass)).calls, Permitted lints c) :
    ∃ before c after lint rules stray,
      (walk tree (lints.map Lint.pass)).calls = before ++ c :: after ∧
      (∀ b ∈ before, Permitted lints b ∧ b.answer = .ok b.found) ∧
      lints[c.callee]? = some lint ∧ lint.declared = .Rules rules ∧
      (c.found.find? fun d => !rules.contains d.ruleId) = some stray ∧
      (walkLints tree lints).result = .error (.Undeclared ⟨stray.ruleId, rules, c.arg.span⟩) ∧
      (walkLints tree lints).calls.map Event.label = (before ++ [c]).map Event.label := by
  obtain ⟨before, c, after, hplain, hbefore, hc⟩ := exists_first_not h
  obtain ⟨lint, rules, stray, hlint, hdeclared, hfind, hans⟩ := judged_of_not_permitted hc
  have hok : ∀ b ∈ before, b.answer = .ok b.found := by
    have hrun := hplain
    change (walkLints tree _).calls = _ at hrun
    rw [walkLints_calls] at hrun
    exact Calls.ok_before checkAt _ _ hrun
  have hcalls : (walkLints tree lints).calls = before ++ [c.judged (judgeAt lints)] := by
    rw [walkLints_eq_cut, hplain, List.map_append, List.map_cons, judged_of_all_permitted hbefore,
      Calls.cut_append_error (Calls.stop_eq_none.mpr hok) hans]
  refine ⟨before, c, after, lint, rules, stray, hplain, fun b hb => ⟨hbefore b hb, hok b hb⟩,
    hlint, hdeclared, hfind, ?_, ?_⟩
  · refine walkLints_error_iff.mpr ?_
    rw [hcalls, Calls.stop_append, Calls.stop_eq_none.mpr hok, Option.none_or,
      Calls.stop_cons, Event.error?_eq_some.mpr hans, Option.some_or]
  · rw [hcalls, List.map_append, List.map_append]
    rfl

/-- The checked walk is the unchecked walk of the same passes as long as every diagnostic is under
    a declared rule. The first call with another diagnostic ends it with an error that names the
    rule. It never returns a diagnostic that its lint did not declare. -/
theorem walkLints_agrees_with_walk (tree : DecoratedTree D) (lints : List (Lint D)) :
    let plain := walk tree (lints.map Lint.pass)
    let checked := walkLints tree lints
    ((∀ c ∈ plain.calls, Permitted lints c) →
      checked.result = plain.result ∧ checked.calls = plain.calls) ∧
    ((¬ ∀ c ∈ plain.calls, Permitted lints c) →
      ∃ before c after lint rules stray, plain.calls = before ++ c :: after ∧
        (∀ b ∈ before, Permitted lints b ∧ b.answer = .ok b.found) ∧
        lints[c.callee]? = some lint ∧ lint.declared = .Rules rules ∧
        (c.found.find? fun d => !rules.contains d.ruleId) = some stray ∧
        checked.result = .error (.Undeclared ⟨stray.ruleId, rules, c.arg.span⟩) ∧
        checked.calls.map Event.label = (before ++ [c]).map Event.label) ∧
    ∀ ds, checked.result = .ok ds →
      ds = found checked.calls ∧ ∀ c ∈ checked.calls, Permitted lints c := by
  intro plain checked
  have hagree : (∀ c ∈ plain.calls, Permitted lints c) →
      checked.result = plain.result ∧ checked.calls = plain.calls := by
    intro h
    have hcalls : (walkLints tree lints).calls = plain.calls := walkLints_calls_of_permitted h
    refine ⟨?_, hcalls⟩
    have hplain : plain.result = _ := walkLints_result tree _
    rw [walkLints_result, hcalls, hplain]
    rfl
  refine ⟨hagree, walkLints_strays, fun ds hok => ?_⟩
  obtain ⟨hs, hds⟩ := walkLints_ok_iff.mp hok
  exact ⟨hds, fun c hc => permitted_of_stop_none hs hc⟩

end Stiles
