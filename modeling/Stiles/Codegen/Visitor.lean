import Stiles.Codegen.Dispatch

/-
  The generated source text (`generate_visitor` in `visitor.rs`).

  `generateVisitor` builds the text as the source does, piece by piece. `visitorText` prints the
  trait and then a dispatch, statement by statement.

  * `generateVisitor_eq`: the text is the trait followed by the dispatch that `dispatchOf` describes.
  * `dispatch_calls`: what the generated dispatch does to a pass, for every list of node types in
    which each kind stands once, none contains itself and no two share a method.
-/

namespace Stiles.Codegen

/-! ## The pieces of the text -/

def visitorImports : String :=
  "use stiles_types::\x7bDecoratedNode, Diagnostic, RuleOptions\x7d;\n\n"

def traitHead (language : String) : String :=
  "/// Trait for " ++ language ++ " lint rules\n" ++
  "///\n" ++
  "/// Generated from the " ++ language ++ " tree-sitter grammar's `node-types.json`.\n" ++
  "/// Each method corresponds to a named node type in the grammar and\n" ++
  "/// defaults to returning no diagnostics.\n" ++
  "///\n" ++
  "/// `Send + Sync` comes from `LintPass`, which every pass reaches the\n" ++
  "/// pipeline as. Requiring it here reports a pass that cannot cross\n" ++
  "/// threads at the pass, rather than where it is wrapped.\n" ++
  "pub trait " ++ language ++ "LintPass: Send + Sync \x7b\n"

def configureMethod : String :=
  "    /// Applies the project's options to this pass\n" ++
  "    ///\n" ++
  "    /// A rule that reads no options leaves this alone. A rule that\n" ++
  "    /// reads one looks it up under its own id, because the table\n" ++
  "    /// covers every rule the project configured.\n" ++
  "    fn configure(&mut self, _options: &RuleOptions) \x7b\x7d\n\n"

/-- A method that defaults to no diagnostics. -/
def defaultMethod (kind : String) : String :=
  "    fn " ++ methodName kind ++
  "(&mut self, _node: &DecoratedNode<'_>) -> Vec<Diagnostic> \x7b\n" ++
  "        Vec::new()\n" ++
  "    \x7d\n\n"

def concreteMethod (node : NodeType) : String :=
  "    /// Checks a `" ++ node.kind ++ "` node\n" ++ defaultMethod node.kind

def supertypeMethod (supertype : NodeType) : String :=
  "    /// Checks any `" ++ supertype.kind ++ "` node (supertype)\n" ++ defaultMethod supertype.kind

def dispatchHead (language : String) : String :=
  "/// Dispatches a node to the appropriate method on the lint pass\n" ++
  "///\n" ++
  "/// Calls the concrete node method and, if the node is a subtype of\n" ++
  "/// any supertype, also calls the supertype method.\n" ++
  "pub fn dispatch(pass: &mut dyn " ++ language ++
  "LintPass, node: &DecoratedNode<'_>) -> Vec<Diagnostic> \x7b\n" ++
  "    let mut diagnostics = Vec::new();\n" ++
  "    let kind = node.kind();\n\n"

def matchHead : String := "    match kind \x7b\n"

def callMethod (method : String) : String :=
  "=> diagnostics.extend(pass." ++ method ++ "(node)),\n"

def matchEnd : String := "        _ => \x7b\x7d\n    \x7d\n\n"

def dispatchEnd : String := "    diagnostics\n\x7d\n"

/-! ## Building the text -/

/-- `output.truncate(output.len() - n)`, where the last `n` characters are one byte each. -/
def truncateBy (n : Nat) (output : String) : String :=
  String.ofList (output.toList.take (output.length - n))

/-- One turn of the last loop. -/
def pushSupertype (fuel : Nat) (nodeTypes : List NodeType) (output : String)
    (supertype : NodeType) : Option String :=
  (collectLeafSubtypes nodeTypes fuel supertype).map fun subtypeKinds =>
    if subtypeKinds.isEmpty then output
    else
      let arms := subtypeKinds.foldl
        (fun output subtypeKind => output ++ ("        \"" ++ subtypeKind ++ "\" |\n"))
        (output ++ matchHead)
      truncateBy 2 arms ++ (" " ++ callMethod (methodName supertype.kind)) ++ matchEnd

def generateVisitor (fuel : Nat) (nodeTypes : List NodeType) (language : String) :
    Option String :=
  let output := visitorImports ++ traitHead language ++ configureMethod
  let output := (concreteNodes nodeTypes).foldl (fun output node => output ++ concreteMethod node)
    output
  let output := (supertypes nodeTypes).foldl
    (fun output supertype => output ++ supertypeMethod supertype) output
  let output := output ++ "\x7d\n\n" ++ (dispatchHead language ++ matchHead)
  let output := (concreteNodes nodeTypes).foldl
    (fun output node =>
      output ++ ("        \"" ++ node.kind ++ "\" " ++ callMethod (methodName node.kind)))
    output
  let output := output ++ matchEnd
  ((supertypes nodeTypes).foldlM (pushSupertype fuel nodeTypes) output).map fun output =>
    output ++ dispatchEnd

/-! ## The text of a program -/

/-- The kinds of an arm, with `|` between them. -/
def patternText : List String → String
  | [] => ""
  | [kind] => "        \"" ++ kind ++ "\" "
  | kind :: kinds => "        \"" ++ kind ++ "\" |\n" ++ patternText kinds

def armText (blank : String) (arm : Arm) : String :=
  patternText arm.kinds ++ (blank ++ callMethod arm.method)

def matchText (blank : String) (arms : MatchKind) : String :=
  matchHead ++ String.join (arms.map (armText blank)) ++ matchEnd

/-- The dispatch with the statement `concrete` and those of the supertypes. -/
def dispatchText (language : String) (concrete : MatchKind) (supers : List MatchKind) : String :=
  dispatchHead language ++ matchText "" concrete ++ String.join (supers.map (matchText " ")) ++
    dispatchEnd

def traitText (nodeTypes : List NodeType) (language : String) : String :=
  visitorImports ++ traitHead language ++ configureMethod ++
    String.join ((concreteNodes nodeTypes).map concreteMethod) ++
    String.join ((supertypes nodeTypes).map supertypeMethod) ++ "\x7d\n\n"

def visitorText (nodeTypes : List NodeType) (language : String) : List MatchKind → String
  | [] => traitText nodeTypes language
  | concrete :: supers => traitText nodeTypes language ++ dispatchText language concrete supers

theorem foldl_push {α : Type} (piece : α → String) (xs : List α) (output : String) :
    xs.foldl (fun output x => output ++ piece x) output = output ++ String.join (xs.map piece) := by
  induction xs generalizing output with
  | nil => simp
  | cons x xs ih => rw [List.foldl_cons, ih, List.map_cons, String.join_cons, String.append_assoc]

theorem truncateBy_append (output tail : String) :
    truncateBy tail.length (output ++ tail) = output := by
  rw [truncateBy, String.length_append, Nat.add_sub_cancel, String.toList_append,
    ← String.length_toList, List.take_left, String.ofList_toList]

/-- The loop over the leaves prints a pattern with one `|` too many, which the cut takes away. -/
theorem join_leaves_eq (kinds : List String) (h : kinds ≠ []) :
    String.join (kinds.map fun kind => "        \"" ++ kind ++ "\" |\n")
      = patternText kinds ++ "|\n" := by
  induction kinds with
  | nil => exact absurd rfl h
  | cons kind kinds ih =>
    rw [List.map_cons, String.join_cons]
    cases kinds with
    | nil =>
      rw [List.map_nil, String.join_nil, patternText, String.append_empty, String.append_assoc,
        String.append_assoc, String.append_assoc]
      rfl
    | cons next kinds =>
      have hpattern : patternText (kind :: next :: kinds)
          = "        \"" ++ kind ++ "\" |\n" ++ patternText (next :: kinds) := rfl
      rw [ih (List.cons_ne_nil _ _), hpattern]
      exact String.append_assoc.symm

theorem truncateBy_two (output pattern : String) :
    truncateBy 2 (output ++ (pattern ++ "|\n")) = output ++ pattern := by
  have hlength : ("|\n" : String).length = 2 := rfl
  rw [← String.append_assoc, ← hlength, truncateBy_append]

/-- The statement that one turn of the loop prints, if the supertype has leaves. -/
theorem pushed_eq (output : String) (supertype : NodeType) {leaves : List String}
    (h : leaves ≠ []) :
    truncateBy 2 (leaves.foldl
        (fun output subtypeKind => output ++ ("        \"" ++ subtypeKind ++ "\" |\n"))
        (output ++ matchHead)) ++ (" " ++ callMethod (methodName supertype.kind)) ++ matchEnd
      = output ++ matchText " " [⟨leaves, methodName supertype.kind⟩] := by
  rw [foldl_push, join_leaves_eq leaves h, truncateBy_two, matchText, List.map_singleton,
    String.join_cons, String.join_nil, String.append_empty, armText]
  simp only [String.append_assoc]

theorem pushSupertype_eq (fuel : Nat) (nodeTypes : List NodeType) (output : String)
    (supertype : NodeType) :
    pushSupertype fuel nodeTypes output supertype
      = (collectLeafSubtypes nodeTypes fuel supertype).map fun leaves =>
          output ++ String.join ((supertypeMatch supertype leaves).map (matchText " ")) := by
  rw [pushSupertype]
  congr 1
  funext leaves
  rw [supertypeMatch]
  by_cases h : leaves.isEmpty = true
  · rw [if_pos h, if_pos h, List.map_nil, String.join_nil, String.append_empty]
  · have hleaves : leaves ≠ [] := fun hnil => h (List.isEmpty_iff.mpr hnil)
    rw [if_neg h, if_neg h, List.map_singleton, String.join_cons, String.join_nil,
      String.append_empty]
    exact pushed_eq output supertype hleaves

theorem foldlM_pushSupertype (fuel : Nat) (nodeTypes supers : List NodeType) (output : String) :
    supers.foldlM (pushSupertype fuel nodeTypes) output
      = (supers.mapM fun supertype => (collectLeafSubtypes nodeTypes fuel supertype).map
          (supertypeMatch supertype)).map
            fun statements => output ++ String.join (statements.flatten.map (matchText " ")) := by
  induction supers generalizing output with
  | nil => simp
  | cons supertype supers ih =>
    rw [List.foldlM_cons, List.mapM_cons, pushSupertype_eq]
    cases collectLeafSubtypes nodeTypes fuel supertype with
    | none => rfl
    | some leaves =>
      show List.foldlM (pushSupertype fuel nodeTypes) _ supers = _
      rw [ih]
      cases supers.mapM fun supertype => (collectLeafSubtypes nodeTypes fuel supertype).map
          (supertypeMatch supertype) with
      | none => rfl
      | some statements =>
        show some (_ ++ _ ++ _) = some (_ ++ String.join ((_ :: _).flatten.map _))
        rw [List.flatten_cons, List.map_append, String.join_append, String.append_assoc]

theorem join_concreteMatch (nodeTypes : List NodeType) :
    String.join ((concreteMatch nodeTypes).map (armText ""))
      = String.join ((concreteNodes nodeTypes).map fun node =>
          "        \"" ++ node.kind ++ "\" " ++ callMethod (methodName node.kind)) := by
  rw [concreteMatch, List.map_map]
  apply congrArg String.join
  apply List.map_congr_left
  intro node _
  show patternText [node.kind] ++ ("" ++ callMethod (methodName node.kind)) = _
  rw [patternText, String.empty_append]

/-- The text is the trait, followed by the dispatch. -/
theorem generateVisitor_eq (fuel : Nat) (nodeTypes : List NodeType) (language : String) :
    generateVisitor fuel nodeTypes language
      = (dispatchOf fuel nodeTypes).map (visitorText nodeTypes language) := by
  rw [generateVisitor, dispatchOf, Option.map_map, foldl_push, foldl_push, foldl_push,
    foldlM_pushSupertype, Option.map_map]
  apply congrArg (fun f => Option.map f _)
  funext statements
  rw [Function.comp_apply, Function.comp_apply, visitorText, dispatchText, matchText,
    join_concreteMatch, traitText]
  generalize matchHead = head
  generalize matchEnd = tail
  generalize dispatchHead language = dispatch
  simp only [String.append_assoc]

/-! ## What the generated dispatch does -/

/-- No two named kinds give the same method. -/
def MethodsDiffer (nodeTypes : List NodeType) : Prop :=
  ∀ m ∈ nodeTypes, ∀ n ∈ nodeTypes, m.named = true → n.named = true →
    methodName m.kind = methodName n.kind → m.kind = n.kind

theorem nodup_supertype_methods {nodeTypes : List NodeType} (hunique : (kinds nodeTypes).Nodup)
    (hmethods : MethodsDiffer nodeTypes) :
    ((supertypes nodeTypes).map fun node => methodName node.kind).Nodup := by
  have hnodes : nodeTypes.Nodup := List.Nodup.of_map _ hunique
  apply List.Nodup.map_on
  · intro m hm n hn hmethod
    obtain ⟨hmMem, hmSuper⟩ := mem_supertypes.mp hm
    obtain ⟨hnMem, hnSuper⟩ := mem_supertypes.mp hn
    have hmNamed := (Bool.and_eq_true_iff.mp hmSuper).1
    have hnNamed := (Bool.and_eq_true_iff.mp hnSuper).1
    have hkind := hmethods m hmMem n hnMem hmNamed hnNamed hmethod
    exact eq_of_key_eq hunique hmMem hnMem (by
      rw [key_of_named hmNamed, key_of_named hnNamed, hkind])
  · exact hnodes.filter _

/-- The method of a named kind without subtypes is not that of a supertype. -/
theorem concrete_method_ne {nodeTypes : List NodeType} (hunique : (kinds nodeTypes).Nodup)
    (hmethods : MethodsDiffer nodeTypes) {kind : String} (hconcrete : IsConcrete nodeTypes kind)
    {supertype : NodeType} (hsuper : supertype ∈ supertypes nodeTypes) :
    methodName supertype.kind ≠ methodName kind := by
  intro hmethod
  obtain ⟨node, hnode, hnodeConcrete, rfl⟩ := hconcrete
  obtain ⟨hmem, hsuper⟩ := mem_supertypes.mp hsuper
  obtain ⟨hnamed, hempty⟩ := Bool.and_eq_true_iff.mp hnodeConcrete
  obtain ⟨hsuperNamed, hsubs⟩ := Bool.and_eq_true_iff.mp hsuper
  have hkind := hmethods supertype hmem node hnode hsuperNamed hnamed hmethod
  have hsame : supertype = node := eq_of_key_eq hunique hmem hnode (by
    rw [key_of_named hsuperNamed, key_of_named hnamed, hkind])
  rw [hsame, hempty] at hsubs
  exact absurd hsubs (by decide)

theorem nodup_expectedCalls {nodeTypes : List NodeType} (hunique : (kinds nodeTypes).Nodup)
    (hmethods : MethodsDiffer nodeTypes) (kind : String) : (expectedCalls nodeTypes kind).Nodup := by
  classical
  rw [expectedCalls]
  split
  · rename_i hconcrete
    rw [List.nodup_cons]
    constructor
    · intro hmem
      obtain ⟨supertype, hsuper, hmethod⟩ := List.mem_map.mp hmem
      exact concrete_method_ne hunique hmethods hconcrete (List.mem_filter.mp hsuper).1 hmethod
    · exact (nodup_supertype_methods hunique hmethods).sublist
        (List.Sublist.map _ List.filter_sublist)
  · exact List.nodup_nil

theorem mem_expectedCalls_concrete {nodeTypes : List NodeType} (hunique : (kinds nodeTypes).Nodup)
    (hmethods : MethodsDiffer nodeTypes) {node : NodeType} (hnode : node ∈ concreteNodes nodeTypes)
    (kind : String) : methodName node.kind ∈ expectedCalls nodeTypes kind ↔ node.kind = kind := by
  classical
  obtain ⟨hmem, hnodeConcrete⟩ := mem_concreteNodes.mp hnode
  have hnodeKind : IsConcrete nodeTypes node.kind := ⟨node, hmem, hnodeConcrete, rfl⟩
  rw [expectedCalls]
  constructor
  · intro hcall
    by_cases hconcrete : IsConcrete nodeTypes kind
    · rw [if_pos hconcrete, List.mem_cons] at hcall
      rcases hcall with hown | hsupers
      · obtain ⟨other, hother, hotherConcrete, rfl⟩ := hconcrete
        exact hmethods node hmem other hother (Bool.and_eq_true_iff.mp hnodeConcrete).1
          (Bool.and_eq_true_iff.mp hotherConcrete).1 hown
      · obtain ⟨supertype, hsuper, hmethod⟩ := List.mem_map.mp hsupers
        exact absurd hmethod
          (concrete_method_ne hunique hmethods hnodeKind (List.mem_filter.mp hsuper).1)
    · rw [if_neg hconcrete] at hcall
      exact absurd hcall List.not_mem_nil
  · rintro rfl
    rw [if_pos hnodeKind]
    exact List.mem_cons_self

theorem mem_expectedCalls_supertype {nodeTypes : List NodeType}
    (hunique : (kinds nodeTypes).Nodup) (hmethods : MethodsDiffer nodeTypes)
    {supertype : NodeType} (hsuper : supertype ∈ supertypes nodeTypes) (kind : String) :
    methodName supertype.kind ∈ expectedCalls nodeTypes kind ↔ IsConcrete nodeTypes kind ∧
      Relation.TransGen (Contains nodeTypes) supertype.kind kind := by
  classical
  rw [expectedCalls]
  constructor
  · intro hcall
    by_cases hconcrete : IsConcrete nodeTypes kind
    · rw [if_pos hconcrete, List.mem_cons] at hcall
      refine ⟨hconcrete, ?_⟩
      rcases hcall with hown | hsupers
      · exact absurd hown (concrete_method_ne hunique hmethods hconcrete hsuper)
      · obtain ⟨other, hother, hmethod⟩ := List.mem_map.mp hsupers
        obtain ⟨hotherSuper, hleads⟩ := List.mem_filter.mp hother
        have hsame : other = supertype :=
          List.inj_on_of_nodup_map (nodup_supertype_methods hunique hmethods) hotherSuper hsuper
            hmethod
        rw [← hsame]
        exact of_decide_eq_true hleads
    · rw [if_neg hconcrete] at hcall
      exact absurd hcall List.not_mem_nil
  · rintro ⟨hconcrete, hleads⟩
    rw [if_pos hconcrete]
    refine List.mem_cons_of_mem _ (List.mem_map.mpr ⟨supertype, ?_, rfl⟩)
    exact List.mem_filter.mpr ⟨hsuper, decide_eq_true hleads⟩

open scoped Classical in
/-- The generated text has a dispatch which, for a node of any kind, calls the method of the kind
    once if the kind is named and has no subtypes, then that of each supertype once that leads to
    it, in the order of the list, and nothing else. -/
theorem dispatch_calls (nodeTypes : List NodeType) (language : String)
    (hunique : (kinds nodeTypes).Nodup) (hacyclic : Acyclic nodeTypes)
    (hmethods : MethodsDiffer nodeTypes) :
    ∃ statements,
      (∃ depth, ∀ fuel ≥ depth, generateVisitor fuel nodeTypes language
        = some (visitorText nodeTypes language statements)) ∧
      (∀ {D : DecorationTypes} {σ : Type} (pass : Methods D σ) (node : DecoratedNode D) (state : σ),
        execDispatch pass node statements state []
          = performCalls pass node (expectedCalls nodeTypes node.kind) state []) ∧
      ∀ kind,
        (∀ node ∈ concreteNodes nodeTypes,
          (expectedCalls nodeTypes kind).count (methodName node.kind)
            = if node.kind = kind then 1 else 0) ∧
        ∀ supertype ∈ supertypes nodeTypes,
          (expectedCalls nodeTypes kind).count (methodName supertype.kind)
            = if IsConcrete nodeTypes kind ∧
                Relation.TransGen (Contains nodeTypes) supertype.kind kind then 1 else 0 := by
  obtain ⟨depth, hsome⟩ := (dispatchOf_isSome_iff_acyclic hunique).mpr hacyclic
  obtain ⟨statements, hdispatch⟩ := Option.isSome_iff_exists.mp hsome
  refine ⟨statements, ⟨depth, ?_⟩, ?_, ?_⟩
  · intro fuel hfuel
    rw [generateVisitor_eq, dispatchOf_mono hfuel hdispatch]
    rfl
  · intro D σ pass node state
    rw [execDispatch_eq, calls_dispatchOf hunique hdispatch]
  · intro kind
    have hnodup := nodup_expectedCalls hunique hmethods kind
    constructor
    · intro node hnode
      rw [hnodup.count, if_congr (mem_expectedCalls_concrete hunique hmethods hnode kind) rfl rfl]
    · intro supertype hsuper
      rw [hnodup.count,
        if_congr (mem_expectedCalls_supertype hunique hmethods hsuper kind) rfl rfl]

/-- A supertype below another one. -/
def nestedSupertypes : List NodeType :=
  [⟨"integer_literal", true, []⟩,
   ⟨"string_literal", true, []⟩,
   ⟨"array_expression", true, []⟩,
   ⟨"_literal", true, [⟨"integer_literal", true⟩, ⟨"string_literal", true⟩]⟩,
   ⟨"_expression", true, [⟨"_literal", true⟩, ⟨"array_expression", true⟩]⟩]

theorem nestedSupertypes_acyclic : Acyclic nestedSupertypes := by
  have hends : ∀ node ∈ nestedSupertypes, (collectLeafSubtypes nestedSupertypes 3 node).isSome := by
    decide
  apply (collect_ends_iff_acyclic (by decide)).mp
  intro node hnode _
  exact ⟨3, hends node hnode⟩

theorem nestedSupertypes_dispatch :
    ∃ statements fuel, generateVisitor fuel nestedSupertypes "Rust"
        = some (visitorText nestedSupertypes "Rust" statements) ∧
      (expectedCalls nestedSupertypes "integer_literal").count "check_expression" = 1 := by
  have hmethods : MethodsDiffer nestedSupertypes := by
    unfold MethodsDiffer
    decide
  obtain ⟨statements, ⟨depth, htext⟩, _, hcalls⟩ := dispatch_calls nestedSupertypes "Rust"
    (by decide) nestedSupertypes_acyclic hmethods
  have hexpression : ⟨"_expression", true, [⟨"_literal", true⟩, ⟨"array_expression", true⟩]⟩
      ∈ supertypes nestedSupertypes := by decide
  have hconcrete : IsConcrete nestedSupertypes "integer_literal" :=
    ⟨⟨"integer_literal", true, []⟩, by decide, by decide, rfl⟩
  have hliteral : Contains nestedSupertypes "_expression" "_literal" :=
    ⟨by decide, by decide⟩
  have hinteger : Contains nestedSupertypes "_literal" "integer_literal" :=
    ⟨by decide, by decide⟩
  have hcount := (hcalls "integer_literal").2 _ hexpression
  rw [if_pos ⟨hconcrete, (Relation.TransGen.single hliteral).tail hinteger⟩] at hcount
  exact ⟨statements, depth, htext depth (Nat.le_refl depth), hcount⟩

/-- A leaf behind two levels of supertypes is in the arms of both. -/
example : dispatchOf 3 nestedSupertypes = some
    [[⟨["integer_literal"], "check_integer_literal"⟩, ⟨["string_literal"], "check_string_literal"⟩,
      ⟨["array_expression"], "check_array_expression"⟩],
     [⟨["integer_literal", "string_literal"], "check_literal"⟩],
     [⟨["integer_literal", "string_literal", "array_expression"], "check_expression"⟩]] := by
  decide

end Stiles.Codegen
