import Stiles.Codegen.Visitor

/-
  The visitor of a language with several grammars (`write_language` in `language.rs`): the merge of
  its grammars, and the dispatch generated from that.

  A grammar in which no kind contains itself gives a dispatch, but a merge adds the references of
  all grammars, and these together may lead from a kind back to itself. The recursion over them
  then never ends. And a kind without subtypes in one grammar may have subtypes in another. The
  merge lists it as a supertype, and a supertype has no arm of its own.

  * `merge_ends_iff`: the recursion ends on every supertype of a merge exactly if the references of
    all grammars together lead from no kind back to itself.
  * `runs_after_merge_iff`: exactly when a merge keeps every call that the dispatch of a grammar
    makes for a kind.
  * `languageVisitor_written`: when the visitor is written, and what its dispatch calls, by the
    references of all grammars together.
-/

namespace Stiles.Codegen

/-- `write_language` up to the text: the grammars are merged, and the merge is read again. -/
def languageVisitor {ε : Type} (serde : Serde ε) (fuel : Nat) (grammars : List String)
    (language : String) : Except ε (Option String) := do
  let nodeTypes ← mergeJson serde grammars
  let merged ← serde.fromStr nodeTypes
  return generateVisitor fuel merged language

/-- Serde reads the grammars, and reads back the merge that it wrote. -/
structure Serde.Reads {ε : Type} (serde : Serde ε) (grammars : List String)
    (nodeTypes : List (List NodeType)) : Prop where
  grammars : grammars.mapM serde.fromStr = .ok nodeTypes
  merge : serde.fromStr (serde.toString (mergeNodeTypes nodeTypes)) = .ok (mergeNodeTypes nodeTypes)

theorem languageVisitor_eq {ε : Type} {serde : Serde ε} {grammars : List String}
    {nodeTypes : List (List NodeType)} (h : serde.Reads grammars nodeTypes) (fuel : Nat)
    (language : String) : languageVisitor serde fuel grammars language =
      .ok (generateVisitor fuel (mergeNodeTypes nodeTypes) language) := by
  rw [languageVisitor, mergeJson, h.grammars]
  show (serde.fromStr (serde.toString (mergeNodeTypes nodeTypes)) >>= _) = _
  rw [h.merge]
  rfl

/-! ## The references of all grammars together -/

/-- Some grammar gives the named kind a reference to the named kind `sub`. -/
def ContainsInSome (grammars : List (List NodeType)) (kind sub : String) : Prop :=
  ∃ grammar ∈ grammars, ⟨sub, true⟩ ∈ subtypesOf ⟨kind, true⟩ grammar

/-- No kind contains itself through the references of all grammars. -/
def TogetherAcyclic (grammars : List (List NodeType)) : Prop :=
  ∀ kind, ¬Relation.TransGen (ContainsInSome grammars) kind kind

variable {grammars : List (List NodeType)}

theorem mem_subtypesOf_flatten {key ref : SubtypeRef} :
    ref ∈ subtypesOf key grammars.flatten ↔ ∃ grammar ∈ grammars, ref ∈ subtypesOf key grammar := by
  rw [mem_subtypesOf]
  constructor
  · rintro ⟨node, hnode, hkey, href⟩
    obtain ⟨grammar, hgrammar, hmem⟩ := List.mem_flatten.mp hnode
    exact ⟨grammar, hgrammar, mem_subtypesOf.mpr ⟨node, hmem, hkey, href⟩⟩
  · rintro ⟨grammar, hgrammar, href⟩
    obtain ⟨node, hmem, hkey, href⟩ := mem_subtypesOf.mp href
    exact ⟨node, List.mem_flatten.mpr ⟨grammar, hgrammar, hmem⟩, hkey, href⟩

theorem mem_kinds_merge {key : SubtypeRef} :
    key ∈ kinds (mergeNodeTypes grammars) ↔ ∃ grammar ∈ grammars, key ∈ kinds grammar := by
  rw [kinds_mergeNodeTypes, List.mem_eraseDups, kinds, List.mem_map]
  constructor
  · rintro ⟨node, hnode, hkey⟩
    obtain ⟨grammar, hgrammar, hmem⟩ := List.mem_flatten.mp hnode
    exact ⟨grammar, hgrammar, List.mem_map.mpr ⟨node, hmem, hkey⟩⟩
  · rintro ⟨grammar, hgrammar, hkey⟩
    obtain ⟨node, hmem, hkey⟩ := List.mem_map.mp hkey
    exact ⟨node, List.mem_flatten.mpr ⟨grammar, hgrammar, hmem⟩, hkey⟩

theorem nodup_kinds_merge (grammars : List (List NodeType)) :
    (kinds (mergeNodeTypes grammars)).Nodup := by
  rw [kinds_mergeNodeTypes]
  exact KeyedMerge.nodup_eraseDups _

theorem contains_merge_iff {kind sub : String} :
    Contains (mergeNodeTypes grammars) kind sub
      ↔ ContainsInSome grammars kind sub ∧ ∃ grammar ∈ grammars, ⟨sub, true⟩ ∈ kinds grammar := by
  rw [Contains, mem_subtypes_mergeNodeTypes, mem_subtypesOf_flatten, mem_kinds_merge,
    ContainsInSome]

/-- A kind that has references is listed. -/
theorem listed_of_containsInSome {kind sub : String} (h : ContainsInSome grammars kind sub) :
    ∃ grammar ∈ grammars, (⟨kind, true⟩ : SubtypeRef) ∈ kinds grammar := by
  obtain ⟨grammar, hgrammar, href⟩ := h
  obtain ⟨node, hnode, hkey, _⟩ := mem_subtypesOf.mp href
  exact ⟨grammar, hgrammar, List.mem_map.mpr ⟨node, hnode, hkey⟩⟩

theorem transGen_contains_merge {kind sub : String}
    (h : Relation.TransGen (ContainsInSome grammars) kind sub)
    (hlisted : ∃ grammar ∈ grammars, (⟨sub, true⟩ : SubtypeRef) ∈ kinds grammar) :
    Relation.TransGen (Contains (mergeNodeTypes grammars)) kind sub := by
  induction h with
  | single hstep => exact Relation.TransGen.single (contains_merge_iff.mpr ⟨hstep, hlisted⟩)
  | tail _ hstep ih =>
    have hmid := ih (listed_of_containsInSome hstep)
    exact hmid.tail (contains_merge_iff.mpr ⟨hstep, hlisted⟩)

theorem acyclic_merge_iff : Acyclic (mergeNodeTypes grammars) ↔ TogetherAcyclic grammars := by
  constructor
  · intro hacyclic kind hloop
    obtain ⟨next, hstep, _⟩ := Relation.TransGen.head'_iff.mp hloop
    exact hacyclic kind (transGen_contains_merge hloop (listed_of_containsInSome hstep))
  · intro htogether kind hloop
    exact htogether kind
      (Relation.TransGen.mono (fun _ _ h => (contains_merge_iff.mp h).1) _ _ hloop)

/-- Each kind once, and no cycle. -/
def WellFormed (nodeTypes : List NodeType) : Prop :=
  (kinds nodeTypes).Nodup ∧ Acyclic nodeTypes

/-- A check that a list is well formed: the recursion ends everywhere with the fuel. -/
def EndsWithin (fuel : Nat) (nodeTypes : List NodeType) : Prop :=
  (kinds nodeTypes).Nodup ∧ ∀ node ∈ nodeTypes, (collectLeafSubtypes nodeTypes fuel node).isSome

theorem wellFormed_of_endsWithin {fuel : Nat} {nodeTypes : List NodeType}
    (h : EndsWithin fuel nodeTypes) : WellFormed nodeTypes := by
  obtain ⟨hunique, hends⟩ := h
  refine ⟨hunique, (collect_ends_iff_acyclic hunique).mp ?_⟩
  intro node hnode _
  exact ⟨fuel, hends node hnode⟩

/-! ## Whether the recursion ends -/

theorem merge_ends_iff (grammars : List (List NodeType)) :
    (∀ node ∈ mergeNodeTypes grammars, node.isSupertype →
      Ends (mergeNodeTypes grammars) node) ↔ TogetherAcyclic grammars := by
  rw [collect_ends_iff_acyclic (nodup_kinds_merge grammars), acyclic_merge_iff]

/-- Two grammars that nest the same two kinds the other way round. -/
def outerInner : List (List NodeType) :=
  [[⟨"outer", true, [⟨"inner", true⟩]⟩, ⟨"inner", true, []⟩],
   [⟨"inner", true, [⟨"outer", true⟩]⟩, ⟨"outer", true, []⟩]]

theorem outerInner_well_formed : ∀ grammar ∈ outerInner, WellFormed grammar := by
  have hfuel : ∀ grammar ∈ outerInner, EndsWithin 1 grammar := by
    unfold EndsWithin
    decide
  exact fun grammar hgrammar => wellFormed_of_endsWithin (hfuel grammar hgrammar)

theorem outerInner_cycle : ¬TogetherAcyclic outerInner := by
  intro hacyclic
  have hinner : ContainsInSome outerInner "outer" "inner" :=
    ⟨[⟨"outer", true, [⟨"inner", true⟩]⟩, ⟨"inner", true, []⟩], by decide,
      by decide⟩
  have houter : ContainsInSome outerInner "inner" "outer" :=
    ⟨[⟨"inner", true, [⟨"outer", true⟩]⟩, ⟨"outer", true, []⟩], by decide,
      by decide⟩
  exact hacyclic "outer" ((Relation.TransGen.single hinner).tail houter)

/-- No grammar has a cycle, and the recursion over their merge does not end. -/
theorem outerInner_never_ends :
    (∀ grammar ∈ outerInner, WellFormed grammar) ∧
      ¬∀ node ∈ mergeNodeTypes outerInner, node.isSupertype →
        Ends (mergeNodeTypes outerInner) node := by
  refine ⟨outerInner_well_formed, ?_⟩
  intro hends
  have hacyclic := (collect_ends_iff_acyclic (nodup_kinds_merge outerInner)).mp hends
  exact outerInner_cycle (acyclic_merge_iff.mp hacyclic)

/-! ## Whether the calls stay -/

/-- The dispatch generated from the list calls the method for a node of the kind. -/
def Calls (nodeTypes : List NodeType) (kind method : String) : Prop :=
  ∃ fuel statements, dispatchOf fuel nodeTypes = some statements ∧ method ∈ callsFor kind statements

/-- Every call that the dispatch of one grammar makes for the kind is made after the merge. -/
def RunsAfterMerge (grammars : List (List NodeType)) (kind : String) : Prop :=
  ∀ grammar ∈ grammars, ∀ method, Calls grammar kind method →
    Calls (mergeNodeTypes grammars) kind method

theorem calls_iff {nodeTypes : List NodeType} (hunique : (kinds nodeTypes).Nodup)
    {kind method : String} :
    Calls nodeTypes kind method ↔ Acyclic nodeTypes ∧ method ∈ expectedCalls nodeTypes kind := by
  rw [← dispatchOf_isSome_iff_acyclic hunique]
  constructor
  · rintro ⟨fuel, statements, hdispatch, hmem⟩
    rw [calls_dispatchOf hunique hdispatch] at hmem
    exact ⟨⟨fuel, Option.isSome_of_mem hdispatch⟩, hmem⟩
  · rintro ⟨⟨fuel, hsome⟩, hmem⟩
    obtain ⟨statements, hdispatch⟩ := Option.isSome_iff_exists.mp hsome
    refine ⟨fuel, statements, hdispatch, ?_⟩
    rw [calls_dispatchOf hunique hdispatch]
    exact hmem

theorem mem_expectedCalls {nodeTypes : List NodeType} {kind method : String} :
    method ∈ expectedCalls nodeTypes kind ↔ IsConcrete nodeTypes kind ∧
      (method = methodName kind ∨ ∃ supertype ∈ supertypes nodeTypes,
        Relation.TransGen (Contains nodeTypes) supertype.kind kind ∧
          methodName supertype.kind = method) := by
  classical
  rw [expectedCalls]
  by_cases hconcrete : IsConcrete nodeTypes kind
  · rw [if_pos hconcrete, List.mem_cons, List.mem_map]
    simp [hconcrete, and_assoc]
  · rw [if_neg hconcrete]
    simp [hconcrete]

theorem isConcrete_iff_subtypes {nodeTypes : List NodeType} (hunique : (kinds nodeTypes).Nodup)
    {kind : String} : IsConcrete nodeTypes kind ↔ (⟨kind, true⟩ : SubtypeRef) ∈ kinds nodeTypes ∧
      subtypesOf ⟨kind, true⟩ nodeTypes = [] := by
  constructor
  · rintro ⟨node, hnode, hconcrete, rfl⟩
    obtain ⟨hnamed, hempty⟩ := Bool.and_eq_true_iff.mp hconcrete
    refine ⟨List.mem_map.mpr ⟨node, hnode, key_of_named hnamed⟩, ?_⟩
    apply List.eq_nil_iff_forall_not_mem.mpr
    intro ref href
    obtain ⟨m, hm, hkey, href⟩ := mem_subtypesOf.mp href
    have hsame := eq_of_key_eq hunique hm hnode (hkey.trans (key_of_named hnamed).symm)
    rw [hsame, List.isEmpty_iff.mp hempty] at href
    exact absurd href List.not_mem_nil
  · rintro ⟨hlisted, hnone⟩
    obtain ⟨node, hnode, hkey⟩ := List.mem_map.mp hlisted
    obtain ⟨hkind, hnamed⟩ := (SubtypeRef.mk.injEq _ _ _ _).mp hkey
    refine ⟨node, hnode, Bool.and_eq_true_iff.mpr ⟨hnamed, ?_⟩, hkind⟩
    apply List.isEmpty_iff.mpr
    apply List.eq_nil_iff_forall_not_mem.mpr
    intro ref href
    have hmem := mem_subtypesOf.mpr ⟨node, hnode, hkey, href⟩
    rw [hnone] at hmem
    exact absurd hmem List.not_mem_nil

theorem subtypesOf_merge_eq_nil {key : SubtypeRef} :
    subtypesOf key (mergeNodeTypes grammars) = []
      ↔ ∀ grammar ∈ grammars, subtypesOf key grammar = [] := by
  simp only [List.eq_nil_iff_forall_not_mem, mem_subtypes_mergeNodeTypes, mem_subtypesOf_flatten]
  constructor
  · intro h grammar hgrammar ref href
    exact h ref ⟨grammar, hgrammar, href⟩
  · rintro h ref ⟨grammar, hgrammar, href⟩
    exact h grammar hgrammar ref href

theorem contains_merge {grammar : List NodeType} (hgrammar : grammar ∈ grammars)
    {kind sub : String} (h : Contains grammar kind sub) :
    Contains (mergeNodeTypes grammars) kind sub :=
  contains_merge_iff.mpr ⟨⟨grammar, hgrammar, h.1⟩, grammar, hgrammar, h.2⟩

/-- A kind that has references in a list without repeated kinds is one of its supertypes. -/
theorem exists_supertype {nodeTypes : List NodeType} {kind sub : String}
    (h : Contains nodeTypes kind sub) : ∃ supertype ∈ supertypes nodeTypes, supertype.kind = kind := by
  obtain ⟨node, hnode, hkey, href⟩ := mem_subtypesOf.mp h.1
  obtain ⟨hkind, hnamed⟩ := (SubtypeRef.mk.injEq _ _ _ _).mp hkey
  refine ⟨node, mem_supertypes.mpr ⟨hnode, ?_⟩, hkind⟩
  cases hsubs : node.subtypes with
  | nil => rw [hsubs] at href; exact absurd href List.not_mem_nil
  | cons => simp [NodeType.isSupertype, hnamed, hsubs]

/-- What a merge that keeps the calls has left of a kind without subtypes. -/
theorem kept_of_runsAfterMerge (hgrammars : ∀ grammar ∈ grammars, WellFormed grammar)
    {kind : String} (hruns : RunsAfterMerge grammars kind) {grammar : List NodeType}
    (hgrammar : grammar ∈ grammars) (hconcrete : IsConcrete grammar kind) :
    (∀ other ∈ grammars, subtypesOf ⟨kind, true⟩ other = []) ∧ TogetherAcyclic grammars := by
  have hunique := nodup_kinds_merge grammars
  obtain ⟨hgrammarUnique, hgrammarAcyclic⟩ := hgrammars grammar hgrammar
  have hown : methodName kind ∈ expectedCalls grammar kind :=
    mem_expectedCalls.mpr ⟨hconcrete, Or.inl rfl⟩
  have hcall := hruns grammar hgrammar (methodName kind)
    ((calls_iff hgrammarUnique).mpr ⟨hgrammarAcyclic, hown⟩)
  obtain ⟨hacyclic, hmerged⟩ := (calls_iff hunique).mp hcall
  have hstill := (mem_expectedCalls.mp hmerged).1
  exact ⟨subtypesOf_merge_eq_nil.mp ((isConcrete_iff_subtypes hunique).mp hstill).2,
    acyclic_merge_iff.mp hacyclic⟩

/-- A merge keeps the calls for a kind exactly if no grammar has the kind without subtypes, or if
    none gives it any and no kind contains itself through the references of all grammars. -/
theorem runs_after_merge_iff (grammars : List (List NodeType))
    (hgrammars : ∀ grammar ∈ grammars, WellFormed grammar) (kind : String) :
    RunsAfterMerge grammars kind ↔ ((∃ grammar ∈ grammars, IsConcrete grammar kind) →
      (∀ grammar ∈ grammars, subtypesOf ⟨kind, true⟩ grammar = []) ∧ TogetherAcyclic grammars) := by
  have hunique := nodup_kinds_merge grammars
  constructor
  · rintro hruns ⟨grammar, hgrammar, hconcrete⟩
    exact kept_of_runsAfterMerge hgrammars hruns hgrammar hconcrete
  · intro hcondition grammar hgrammar method hcall
    obtain ⟨_, hmem⟩ := (calls_iff (hgrammars grammar hgrammar).1).mp hcall
    obtain ⟨hconcrete, hmethod⟩ := mem_expectedCalls.mp hmem
    obtain ⟨hnone, htogether⟩ := hcondition ⟨grammar, hgrammar, hconcrete⟩
    have hlisted := ((isConcrete_iff_subtypes (hgrammars grammar hgrammar).1).mp hconcrete).1
    have hmerged : IsConcrete (mergeNodeTypes grammars) kind :=
      (isConcrete_iff_subtypes hunique).mpr
        ⟨mem_kinds_merge.mpr ⟨grammar, hgrammar, hlisted⟩, subtypesOf_merge_eq_nil.mpr hnone⟩
    refine (calls_iff hunique).mpr ⟨acyclic_merge_iff.mpr htogether, ?_⟩
    refine mem_expectedCalls.mpr ⟨hmerged, ?_⟩
    rcases hmethod with hown | ⟨supertype, _, hleads, hname⟩
    · exact Or.inl hown
    · have hleadsMerged :=
        Relation.TransGen.mono (fun _ _ h => contains_merge hgrammar h) _ _ hleads
      obtain ⟨next, hstep, _⟩ := Relation.TransGen.head'_iff.mp hleadsMerged
      obtain ⟨same, hsame, hkind⟩ := exists_supertype hstep
      exact Or.inr ⟨same, hsame, hkind ▸ hleadsMerged, hkind ▸ hname⟩

/-- The grammar of `.ts` files and that of `.tsx` files, in small. -/
def typescriptTsx : List (List NodeType) :=
  [[⟨"expression", true, [⟨"identifier", true⟩, ⟨"type_assertion", true⟩]⟩,
    ⟨"identifier", true, []⟩, ⟨"type_assertion", true, []⟩, ⟨"=>", false, []⟩],
   [⟨"expression", true, [⟨"identifier", true⟩, ⟨"jsx_element", true⟩]⟩,
    ⟨"identifier", true, []⟩, ⟨"jsx_element", true, []⟩, ⟨"=>", false, []⟩]]

theorem typescriptTsx_runs : RunsAfterMerge typescriptTsx "jsx_element" := by
  have hfuel : ∀ grammar ∈ typescriptTsx, EndsWithin 1 grammar := by
    unfold EndsWithin
    decide
  have hmerged : EndsWithin 1 (mergeNodeTypes typescriptTsx) := by
    unfold EndsWithin
    decide
  have hnone : ∀ grammar ∈ typescriptTsx, subtypesOf ⟨"jsx_element", true⟩ grammar = [] := by
    decide
  refine (runs_after_merge_iff typescriptTsx
    (fun grammar hgrammar => wellFormed_of_endsWithin (hfuel grammar hgrammar))
    "jsx_element").mpr ?_
  intro _
  exact ⟨hnone, acyclic_merge_iff.mp (wellFormed_of_endsWithin hmerged).2⟩

/-- `pattern` has no subtypes in the first grammar, and is a supertype in the second. -/
def movedPattern : List (List NodeType) :=
  [[⟨"pattern", true, []⟩],
   [⟨"pattern", true, [⟨"identifier", true⟩]⟩, ⟨"identifier", true, []⟩]]

/-- After the merge no method is called for a `pattern` node. -/
theorem movedPattern_lost :
    (∀ grammar ∈ movedPattern, WellFormed grammar) ∧ ¬RunsAfterMerge movedPattern "pattern" := by
  have hfuel : ∀ grammar ∈ movedPattern, EndsWithin 1 grammar := by
    unfold EndsWithin
    decide
  have hwell : ∀ grammar ∈ movedPattern, WellFormed grammar :=
    fun grammar hgrammar => wellFormed_of_endsWithin (hfuel grammar hgrammar)
  refine ⟨hwell, ?_⟩
  intro hruns
  have hfirst : [⟨"pattern", true, []⟩] ∈ movedPattern := by decide
  have hconcrete : IsConcrete [⟨"pattern", true, []⟩] "pattern" :=
    ⟨⟨"pattern", true, []⟩, by decide, by decide, rfl⟩
  have hnone := (kept_of_runsAfterMerge hwell hruns hfirst hconcrete).1
  exact absurd hnone (by decide)

/-! ## The file that is written -/

/-- A call of the dispatch of a merge, by the references of all grammars together. -/
theorem mem_expectedCalls_merge {kind method : String} :
    method ∈ expectedCalls (mergeNodeTypes grammars) kind ↔
      (∃ grammar ∈ grammars, (⟨kind, true⟩ : SubtypeRef) ∈ kinds grammar) ∧
      (∀ grammar ∈ grammars, subtypesOf ⟨kind, true⟩ grammar = []) ∧
      (method = methodName kind ∨ ∃ supertype,
        Relation.TransGen (ContainsInSome grammars) supertype kind ∧
          methodName supertype = method) := by
  rw [mem_expectedCalls, isConcrete_iff_subtypes (nodup_kinds_merge grammars), mem_kinds_merge,
    subtypesOf_merge_eq_nil, and_assoc]
  refine and_congr_right fun hlisted => and_congr_right fun _ => or_congr_right ?_
  constructor
  · rintro ⟨supertype, -, hleads, hmethod⟩
    exact ⟨supertype.kind,
      Relation.TransGen.mono (fun _ _ h => (contains_merge_iff.mp h).1) _ _ hleads, hmethod⟩
  · rintro ⟨name, hleads, hmethod⟩
    have hmerged := transGen_contains_merge hleads hlisted
    obtain ⟨next, hstep, -⟩ := Relation.TransGen.head'_iff.mp hmerged
    obtain ⟨supertype, hsupertype, rfl⟩ := exists_supertype hstep
    exact ⟨supertype, hsupertype, hmerged, hmethod⟩

/-- The visitor of a language is written exactly if no kind contains itself through the references
    of all its grammars. It does not depend on the depth that the recursion is given, and its
    dispatch calls for a node of a kind that no grammar gives subtypes the method of the kind and
    those of the kinds that lead to it in the grammars together, and no other. -/
theorem languageVisitor_written {ε : Type} (serde : Serde ε) (grammars : List String)
    (nodeTypes : List (List NodeType)) (hreads : serde.Reads grammars nodeTypes)
    (language : String) :
    ((∃ fuel text, languageVisitor serde fuel grammars language = .ok (some text)) ↔
      TogetherAcyclic nodeTypes) ∧
    ∀ fuel text, languageVisitor serde fuel grammars language = .ok (some text) →
      (∀ more ≥ fuel, languageVisitor serde more grammars language = .ok (some text)) ∧
      ∃ statements, text = visitorText (mergeNodeTypes nodeTypes) language statements ∧
        ∀ kind method, method ∈ callsFor kind statements ↔
          (∃ grammar ∈ nodeTypes, (⟨kind, true⟩ : SubtypeRef) ∈ kinds grammar) ∧
          (∀ grammar ∈ nodeTypes, subtypesOf ⟨kind, true⟩ grammar = []) ∧
          (method = methodName kind ∨ ∃ supertype,
            Relation.TransGen (ContainsInSome nodeTypes) supertype kind ∧
              methodName supertype = method) := by
  have hunique := nodup_kinds_merge nodeTypes
  -- the text is there where the statements are
  have hwritten : ∀ fuel text, languageVisitor serde fuel grammars language = .ok (some text) ↔
      ∃ statements, dispatchOf fuel (mergeNodeTypes nodeTypes) = some statements ∧
        visitorText (mergeNodeTypes nodeTypes) language statements = text := by
    intro fuel text
    rw [languageVisitor_eq hreads, generateVisitor_eq, Except.ok.injEq, Option.map_eq_some_iff]
  refine ⟨?_, fun fuel text htext => ?_⟩
  · rw [← acyclic_merge_iff, ← dispatchOf_isSome_iff_acyclic hunique]
    refine exists_congr fun fuel => ?_
    rw [Option.isSome_iff_exists]
    constructor
    · rintro ⟨text, htext⟩
      obtain ⟨statements, hstatements, -⟩ := (hwritten fuel text).mp htext
      exact ⟨statements, hstatements⟩
    · rintro ⟨statements, hstatements⟩
      exact ⟨_, (hwritten fuel _).mpr ⟨statements, hstatements, rfl⟩⟩
  · obtain ⟨statements, hstatements, rfl⟩ := (hwritten fuel text).mp htext
    refine ⟨fun more hmore => ?_, statements, rfl, fun kind method => ?_⟩
    · exact (hwritten more _).mpr ⟨statements, dispatchOf_mono hmore hstatements, rfl⟩
    · rw [calls_dispatchOf hunique hstatements, mem_expectedCalls_merge]

/-- The text of a list of node types, as serde writes it. -/
def jsonText (nodeTypes : List NodeType) : String :=
  let ref : SubtypeRef → String := fun ref =>
    "\x7b\"type\":\"" ++ ref.kind ++ "\",\"named\":" ++ (if ref.named then "true" else "false") ++
      "\x7d"
  let node : NodeType → String := fun node =>
    "\x7b\"type\":\"" ++ node.kind ++ "\",\"named\":" ++ (if node.named then "true" else "false") ++
      (if node.subtypes.isEmpty then ""
        else ",\"subtypes\":[" ++ ",".intercalate (node.subtypes.map ref) ++ "]") ++ "\x7d"
  "[" ++ ",".intercalate (nodeTypes.map node) ++ "]"

/-- Reads the texts of two grammars and of their merge. -/
def typescriptSerde : Serde String where
  fromStr text :=
    match [typescriptTypes.entries, tsxTypes.entries,
        mergeNodeTypes [typescriptTypes.entries, tsxTypes.entries]].find? fun nodeTypes =>
          jsonText nodeTypes = text with
    | some nodeTypes => .ok nodeTypes
    | none => .error "expected value at line 1 column 1"
  toString := jsonText

set_option maxRecDepth 8000 in
theorem typescriptSerde_reads : typescriptSerde.Reads
    [jsonText typescriptTypes.entries, jsonText tsxTypes.entries]
    [typescriptTypes.entries, tsxTypes.entries] where
  grammars := by decide
  merge := by decide

/-- The method of an element of one grammar is called beside that of the kind above it, which the
    other grammar has too. -/
theorem languageVisitor_written_typescript : ∃ fuel statements,
    languageVisitor typescriptSerde fuel
      [jsonText typescriptTypes.entries, jsonText tsxTypes.entries] "TypeScript" =
        .ok (some (visitorText (mergeNodeTypes [typescriptTypes.entries, tsxTypes.entries])
          "TypeScript" statements)) ∧
      methodName "jsx_element" ∈ callsFor "jsx_element" statements ∧
      methodName "primary_expression" ∈ callsFor "jsx_element" statements := by
  have hspec := languageVisitor_written typescriptSerde _ _ typescriptSerde_reads "TypeScript"
  have hends : EndsWithin 1 (mergeNodeTypes [typescriptTypes.entries, tsxTypes.entries]) := by
    unfold EndsWithin
    decide
  obtain ⟨fuel, text, htext⟩ := hspec.1.mpr
    (acyclic_merge_iff.mp (wellFormed_of_endsWithin hends).2)
  obtain ⟨-, statements, rfl, hcalls⟩ := hspec.2 fuel text htext
  have hlisted : ∃ grammar ∈ [typescriptTypes.entries, tsxTypes.entries],
      (⟨"jsx_element", true⟩ : SubtypeRef) ∈ kinds grammar := by decide
  have hnone : ∀ grammar ∈ [typescriptTypes.entries, tsxTypes.entries],
      subtypesOf ⟨"jsx_element", true⟩ grammar = [] := by decide
  refine ⟨fuel, statements, htext, (hcalls _ _).mpr ⟨hlisted, hnone, Or.inl rfl⟩,
    (hcalls _ _).mpr ⟨hlisted, hnone, Or.inr ⟨"primary_expression", ?_, rfl⟩⟩⟩
  exact Relation.TransGen.single ⟨tsxTypes.entries, by decide, by decide⟩

end Stiles.Codegen
