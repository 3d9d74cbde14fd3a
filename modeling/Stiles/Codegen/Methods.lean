import Stiles.Codegen.Visitor

/-
  The methods of the generated trait (`generate_visitor` and `method_name` in `visitor.rs`).

  The generator names the method of a kind after it, without one leading underscore, and prints a
  method for each named kind without subtypes and then one for each supertype. `traitMethods` is
  the list of what it prints.

  * `methodName_eq_iff`: two kinds give one name if one of them is `_` and the other (`Twins`).
  * `oneMethodPerKind_iff`: so the trait has one method for each named kind exactly if no two named
    kinds are twins. A list with twins gives a trait that declares one method twice.
-/

namespace Stiles.Codegen

/-! ## The methods that are printed -/

/-- A method as it is printed: its comment, its name, and what follows the name. -/
structure TraitMethod where
  doc : String
  name : String
  rest : String
deriving DecidableEq, Repr

def TraitMethod.text (method : TraitMethod) : String :=
  method.doc ++ ("    fn " ++ method.name ++ method.rest)

def configureDeclared : TraitMethod where
  doc :=
    "    /// Applies the project's options to this pass\n" ++
    "    ///\n" ++
    "    /// A rule that reads no options leaves this alone. A rule that\n" ++
    "    /// reads one looks it up under its own id, because the table\n" ++
    "    /// covers every rule the project configured.\n"
  name := "configure"
  rest := "(&mut self, _options: &RuleOptions) \x7b\x7d\n\n"

/-- A method `check_…`, which defaults to no diagnostics. -/
def checkDeclared (doc kind : String) : TraitMethod where
  doc := doc
  name := methodName kind
  rest := "(&mut self, _node: &DecoratedNode<'_>) -> Vec<Diagnostic> \x7b\n" ++
    "        Vec::new()\n" ++
    "    \x7d\n\n"

def concreteDeclared (node : NodeType) : TraitMethod :=
  checkDeclared ("    /// Checks a `" ++ node.kind ++ "` node\n") node.kind

def supertypeDeclared (supertype : NodeType) : TraitMethod :=
  checkDeclared ("    /// Checks any `" ++ supertype.kind ++ "` node (supertype)\n") supertype.kind

/-- The methods of the trait, in the order in which they are printed. -/
def traitMethods (nodeTypes : List NodeType) : List TraitMethod :=
  configureDeclared :: ((concreteNodes nodeTypes).map concreteDeclared ++
    (supertypes nodeTypes).map supertypeDeclared)

def methodNames (nodeTypes : List NodeType) : List String :=
  (traitMethods nodeTypes).map TraitMethod.name

/-- The text of a trait with these methods. -/
def traitWith (language : String) (methods : List TraitMethod) : String :=
  visitorImports ++ traitHead language ++ String.join (methods.map TraitMethod.text) ++ "\x7d\n\n"

theorem configureDeclared_text : configureDeclared.text = configureMethod := by
  rfl

theorem defaultMethod_eq (doc kind : String) :
    (checkDeclared doc kind).text = doc ++ defaultMethod kind := by
  rw [TraitMethod.text, checkDeclared, defaultMethod]
  simp only [String.append_assoc]

theorem traitText_eq (nodeTypes : List NodeType) (language : String) :
    traitText nodeTypes language = traitWith language (traitMethods nodeTypes) := by
  have hconcrete : ∀ node, (concreteDeclared node).text = concreteMethod node := fun node =>
    defaultMethod_eq _ _
  have hsuper : ∀ node, (supertypeDeclared node).text = supertypeMethod node := fun node =>
    defaultMethod_eq _ _
  rw [traitText, traitWith, traitMethods, List.map_cons, List.map_append, List.map_map,
    List.map_map, String.join_cons, String.join_append, configureDeclared_text,
    show TraitMethod.text ∘ concreteDeclared = concreteMethod from funext hconcrete,
    show TraitMethod.text ∘ supertypeDeclared = supertypeMethod from funext hsuper]
  simp only [String.append_assoc]

/-- The generated text is the trait with these methods, and then the dispatch. -/
theorem generateVisitor_trait {fuel : Nat} {nodeTypes : List NodeType} {language text : String}
    (h : generateVisitor fuel nodeTypes language = some text) :
    ∃ dispatch, text = traitWith language (traitMethods nodeTypes) ++ dispatch := by
  rw [generateVisitor_eq] at h
  obtain ⟨statements, _, rfl⟩ := Option.map_eq_some_iff.mp h
  rw [← traitText_eq]
  cases statements with
  | nil => exact ⟨"", String.append_empty.symm⟩
  | cons concrete supers => exact ⟨dispatchText language concrete supers, rfl⟩

/-! ## Kinds of one name -/

/-- `other` is `_` and then `kind`. -/
def Twins (kind other : String) : Prop :=
  other = "_" ++ kind ∧ kind.toList.head? ≠ some '_'

/-- The characters of a kind without one leading underscore. -/
def stripped (kind : String) : List Char :=
  if kind.toList.head? = some '_' then kind.toList.tail else kind.toList

theorem methodName_eq (kind : String) :
    methodName kind = "check_" ++ String.ofList (stripped kind) := by
  rw [methodName, stripped]
  split
  · rename_i rest hchars
    rw [hchars]
    rfl
  · rename_i hne
    have hhead : kind.toList.head? ≠ some '_' := by
      intro hhead
      obtain ⟨rest, hrest⟩ := List.head?_eq_some_iff.mp hhead
      exact hne rest hrest
    rw [if_neg hhead, String.ofList_toList]

theorem stripped_cases (kind : String) :
    kind.toList = '_' :: stripped kind ∨
      kind.toList = stripped kind ∧ kind.toList.head? ≠ some '_' := by
  unfold stripped
  by_cases hhead : kind.toList.head? = some '_'
  · obtain ⟨rest, hrest⟩ := List.head?_eq_some_iff.mp hhead
    rw [if_pos hhead, hrest]
    exact Or.inl rfl
  · rw [if_neg hhead]
    exact Or.inr ⟨rfl, hhead⟩

theorem toList_underscore (kind : String) : ("_" ++ kind).toList = '_' :: kind.toList := by
  rw [String.toList_append]
  rfl

theorem twins_of_stripped {kind other : String} (hkind : kind.toList = stripped kind)
    (hhead : kind.toList.head? ≠ some '_') (hother : other.toList = '_' :: stripped other)
    (h : stripped kind = stripped other) : Twins kind other := by
  refine ⟨String.toList_inj.mp ?_, hhead⟩
  rw [toList_underscore, hother, ← h, ← hkind]

theorem stripped_of_twins {kind other : String} (h : Twins kind other) :
    stripped other = stripped kind := by
  obtain ⟨rfl, hhead⟩ := h
  have hother : stripped ("_" ++ kind) = kind.toList := by
    rw [stripped, toList_underscore]
    rfl
  rw [hother]
  rcases stripped_cases kind with hkind | ⟨hkind, _⟩
  · rw [hkind] at hhead
    exact absurd rfl hhead
  · exact hkind

theorem methodName_eq_iff {kind other : String} :
    methodName kind = methodName other ↔ kind = other ∨ Twins kind other ∨ Twins other kind := by
  have hstripped : methodName kind = methodName other ↔ stripped kind = stripped other := by
    rw [methodName_eq, methodName_eq, String.append_right_inj, String.ofList_inj]
  rw [hstripped]
  constructor
  · intro h
    rcases stripped_cases kind with hkind | ⟨hkind, hkindHead⟩
    · rcases stripped_cases other with hother | ⟨hother, hotherHead⟩
      · refine Or.inl (String.toList_inj.mp ?_)
        rw [hkind, hother, h]
      · exact Or.inr (Or.inr (twins_of_stripped hother hotherHead hkind h.symm))
    · rcases stripped_cases other with hother | ⟨hother, hotherHead⟩
      · exact Or.inr (Or.inl (twins_of_stripped hkind hkindHead hother h))
      · refine Or.inl (String.toList_inj.mp ?_)
        rw [hkind, hother, h]
  · intro h
    rcases h with rfl | htwins | htwins
    · rfl
    · exact (stripped_of_twins htwins).symm
    · exact stripped_of_twins htwins

/-! ## One method for each kind -/

/-- No two methods of the trait have one name, distinct named kinds have distinct methods, and the
    trait declares the method of each once. -/
def OneMethodPerKind (nodeTypes : List NodeType) : Prop :=
  (methodNames nodeTypes).Nodup ∧ MethodsDiffer nodeTypes ∧
    ∀ node ∈ nodeTypes, node.named = true →
      (methodNames nodeTypes).count (methodName node.kind) = 1

/-- No two named kinds of the list are twins. -/
def NoTwins (nodeTypes : List NodeType) : Prop :=
  ∀ kind other, Twins kind other → (⟨kind, true⟩ : SubtypeRef) ∈ kinds nodeTypes →
    (⟨other, true⟩ : SubtypeRef) ∉ kinds nodeTypes

theorem mem_kinds_named {nodeTypes : List NodeType} {kind : String} :
    (⟨kind, true⟩ : SubtypeRef) ∈ kinds nodeTypes ↔
      ∃ node ∈ nodeTypes, node.named = true ∧ node.kind = kind := by
  rw [kinds, List.mem_map]
  constructor
  · rintro ⟨node, hnode, hkey⟩
    obtain ⟨hkind, hnamed⟩ := SubtypeRef.mk.inj hkey
    exact ⟨node, hnode, hnamed, hkind⟩
  · rintro ⟨node, hnode, hnamed, rfl⟩
    exact ⟨node, hnode, key_of_named hnamed⟩

theorem methodsDiffer_iff {nodeTypes : List NodeType} :
    MethodsDiffer nodeTypes ↔ NoTwins nodeTypes := by
  constructor
  · intro h kind other htwins hkind hother
    obtain ⟨m, hm, hmNamed, rfl⟩ := mem_kinds_named.mp hkind
    obtain ⟨n, hn, hnNamed, rfl⟩ := mem_kinds_named.mp hother
    have hsame := h m hm n hn hmNamed hnNamed (methodName_eq_iff.mpr (Or.inr (Or.inl htwins)))
    -- A kind is shorter than its twin.
    have hlength := congrArg (fun kind => kind.toList.length) htwins.1
    rw [← hsame] at hlength
    simp at hlength
  · intro h m hm n hn hmNamed hnNamed hname
    have hmKind := mem_kinds_named.mpr ⟨m, hm, hmNamed, rfl⟩
    have hnKind := mem_kinds_named.mpr ⟨n, hn, hnNamed, rfl⟩
    rcases methodName_eq_iff.mp hname with hkind | htwins | htwins
    · exact hkind
    · exact absurd hnKind (h _ _ htwins hmKind)
    · exact absurd hmKind (h _ _ htwins hnKind)

theorem methodNames_eq (nodeTypes : List NodeType) :
    methodNames nodeTypes = "configure" ::
      ((concreteNodes nodeTypes ++ supertypes nodeTypes).map fun node => methodName node.kind) := by
  rw [methodNames, traitMethods, List.map_cons, List.map_append, List.map_append, List.map_map,
    List.map_map]
  rfl

theorem configure_ne_methodName (kind : String) : "configure" ≠ methodName kind := by
  intro h
  have hhead := congrArg (fun name => name.toList[1]?) h
  rw [methodName_eq] at hhead
  simp at hhead

/-- Every named node is in exactly one of the two loops. -/
theorem mem_loops {nodeTypes : List NodeType} {node : NodeType} :
    node ∈ concreteNodes nodeTypes ++ supertypes nodeTypes ↔
      node ∈ nodeTypes ∧ node.named = true := by
  rw [List.mem_append, mem_concreteNodes, mem_supertypes, ← and_or_left]
  refine and_congr_right fun _ => ?_
  rw [NodeType.isConcrete, NodeType.isSupertype]
  cases node.named <;> cases node.subtypes.isEmpty <;> simp

theorem nodup_loops {nodeTypes : List NodeType} (hunique : (kinds nodeTypes).Nodup) :
    (concreteNodes nodeTypes ++ supertypes nodeTypes).Nodup := by
  have hnodes : nodeTypes.Nodup := List.Nodup.of_map _ hunique
  rw [List.nodup_append]
  refine ⟨hnodes.filter _, hnodes.filter _, ?_⟩
  intro m hm n hn hmn
  have hconcrete := (Bool.and_eq_true_iff.mp (mem_concreteNodes.mp hm).2).2
  have hsuper := (Bool.and_eq_true_iff.mp (mem_supertypes.mp hn).2).2
  rw [← hmn, hconcrete] at hsuper
  cases hsuper

/-- Two named entries of one kind are one entry. -/
theorem named_eq_of_kind {nodeTypes : List NodeType} (hunique : (kinds nodeTypes).Nodup)
    {m n : NodeType} (hm : m ∈ nodeTypes ∧ m.named = true) (hn : n ∈ nodeTypes ∧ n.named = true)
    (hkind : m.kind = n.kind) : m = n :=
  eq_of_key_eq hunique hm.1 hn.1 (by rw [key_of_named hm.2, key_of_named hn.2, hkind])

theorem methodNames_nodup_iff {nodeTypes : List NodeType} (hunique : (kinds nodeTypes).Nodup) :
    (methodNames nodeTypes).Nodup ↔ MethodsDiffer nodeTypes := by
  have hconfigure : "configure" ∉ (concreteNodes nodeTypes ++ supertypes nodeTypes).map
      fun node => methodName node.kind := by
    intro hmem
    obtain ⟨node, _, hname⟩ := List.mem_map.mp hmem
    exact configure_ne_methodName node.kind hname.symm
  rw [methodNames_eq, List.nodup_cons, and_iff_right hconfigure]
  constructor
  · intro hnodup m hm n hn hmNamed hnNamed hname
    have hsame := List.inj_on_of_nodup_map hnodup (mem_loops.mpr ⟨hm, hmNamed⟩)
      (mem_loops.mpr ⟨hn, hnNamed⟩) hname
    rw [hsame]
  · intro hdiffer
    refine List.Nodup.map_on ?_ (nodup_loops hunique)
    intro m hm n hn hname
    have hm := mem_loops.mp hm
    have hn := mem_loops.mp hn
    exact named_eq_of_kind hunique hm hn (hdiffer m hm.1 n hn.1 hm.2 hn.2 hname)

/-- The trait that the generator prints has one method for each named kind exactly if no named kind
    stands in the list beside itself with a leading underscore. -/
theorem oneMethodPerKind_iff (nodeTypes : List NodeType) (hunique : (kinds nodeTypes).Nodup) :
    (∀ fuel language text, generateVisitor fuel nodeTypes language = some text →
      ∃ dispatch, text = traitWith language (traitMethods nodeTypes) ++ dispatch) ∧
    (OneMethodPerKind nodeTypes ↔ NoTwins nodeTypes) := by
  refine ⟨fun fuel language text h => generateVisitor_trait h, ?_⟩
  constructor
  · intro hone
    exact methodsDiffer_iff.mp hone.2.1
  · intro htwins
    have hdiffer := methodsDiffer_iff.mpr htwins
    have hnodup := (methodNames_nodup_iff hunique).mpr hdiffer
    refine ⟨hnodup, hdiffer, ?_⟩
    intro node hnode hnamed
    apply List.count_eq_one_of_mem hnodup
    rw [methodNames_eq]
    exact List.mem_cons_of_mem _ (List.mem_map.mpr ⟨node, mem_loops.mpr ⟨hnode, hnamed⟩, rfl⟩)

/-- A supertype beside a kind that has its name without the underscore. -/
def literalTwins : List NodeType :=
  [⟨"integer_literal", true, []⟩,
   ⟨"literal", true, []⟩,
   ⟨"_literal", true, [⟨"integer_literal", true⟩, ⟨"literal", true⟩]⟩]

/-- The trait declares `check_literal` twice. -/
theorem literalTwins_twice : ¬∀ nodeTypes : List NodeType, (kinds nodeTypes).Nodup →
    OneMethodPerKind nodeTypes := by
  intro h
  have hnodup := (h literalTwins (by decide)).1
  revert hnodup
  decide

theorem nestedSupertypes_oneMethod : OneMethodPerKind nestedSupertypes := by
  have hmethods : MethodsDiffer nestedSupertypes := by
    unfold MethodsDiffer
    decide
  apply (oneMethodPerKind_iff nestedSupertypes (by decide)).2.mpr
  exact methodsDiffer_iff.mp hmethods

end Stiles.Codegen
