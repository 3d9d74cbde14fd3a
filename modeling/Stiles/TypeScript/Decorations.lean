import Mathlib.Data.List.Flatten
import Stiles.TypeScript.ModuleName
import Stiles.TypeScript.Targets
import Stiles.Types.PathComponents

/-
  What the TypeScript provider says of a node (`queries.rs` and `decorations/` of
  stiles-typescript).

  `Tsrs` is the checker and the program of one source file. A question to the checker may change
  what it has worked out, so that each one takes the checker and hands it on.

  * `Typed`, `Signs`: what the decorations of a value and of a function say, all of one answer of
    the checker.
  * `decorations_described`: which nodes are decorated, and with what.
-/

namespace Stiles.TypeScriptProvider

/-! ## The decorations -/

inductive Primitive where
  | String
  | Number
  | BigInt
  | Boolean
  | Symbol
  | NotPrimitive
deriving DecidableEq, Repr

structure ResolvedType where
  display : String
  alias_ : Option String
  primitive : Primitive
deriving DecidableEq, Repr

structure TypeText where
  text : String
deriving DecidableEq, Repr

structure StringUnion where
  members : List String
deriving DecidableEq, Repr

structure Parameter where
  name : String
  ty : ResolvedType
deriving DecidableEq, Repr

structure FnSignature where
  parameters : List Parameter
  returnType : ResolvedType
deriving DecidableEq, Repr

inductive ImportSource where
  | Relative
  | Dependency
  | Workspace
  | Unresolved
deriving DecidableEq, Repr

@[reducible] def Value : TypeScriptDecoration → Type
  | .TypeText => TypeText
  | .ResolvedType => ResolvedType
  | .StringUnion => StringUnion
  | .FnSignature => FnSignature
  | .ImportSource => ImportSource

/-! ## tsrs -/

/-- The kinds of tsrs nodes that a question depends on. -/
inductive Kind where
  | Parameter
  | VariableDeclaration
  | PropertySignature
  | PropertyDeclaration
  | FunctionDeclaration
  | MethodDeclaration
  | MethodSignature
  | TypeReference
  | Other
deriving DecidableEq, Repr

/-- A set of flags, one bit each. -/
abbrev Flags := BitVec 32

def intersects (flags other : Flags) : Bool := flags &&& other ≠ 0

def TypeFlags.String : Flags := 1 <<< 5
def TypeFlags.Number : Flags := 1 <<< 6
def TypeFlags.BigInt : Flags := 1 <<< 7
def TypeFlags.Boolean : Flags := 1 <<< 8
def TypeFlags.ESSymbol : Flags := 1 <<< 9
def TypeFlags.StringLiteral : Flags := 1 <<< 10
def TypeFlags.NumberLiteral : Flags := 1 <<< 11
def TypeFlags.BigIntLiteral : Flags := 1 <<< 12
def TypeFlags.BooleanLiteral : Flags := 1 <<< 13
def TypeFlags.UniqueESSymbol : Flags := 1 <<< 14
def TypeFlags.EnumLiteral : Flags := 1 <<< 15
def TypeFlags.Enum : Flags := 1 <<< 16
def TypeFlags.Union : Flags := 1 <<< 27
def TypeFlags.BigIntLike : Flags := TypeFlags.BigInt ||| TypeFlags.BigIntLiteral
def TypeFlags.BooleanLike : Flags := TypeFlags.Boolean ||| TypeFlags.BooleanLiteral
def TypeFlags.ESSymbolLike : Flags := TypeFlags.ESSymbol ||| TypeFlags.UniqueESSymbol

def SymbolFlags.TypeAlias : Flags := 1 <<< 19
def SymbolFlags.Alias : Flags := 1 <<< 21

/-- The value of a literal type. Only the text of a string is read. -/
inductive LiteralValue where
  | String (text : String)
  | Number
  | Boolean
  | BigInt
deriving DecidableEq, Repr

/-- A module that a specifier was looked up as. -/
structure ResolvedModule where
  isResolved : Bool
  resolvedFileName : FilePath
deriving DecidableEq, Repr

/-- The checker and the program of a source file. -/
structure Tsrs where
  Checker : Type
  Node : Type
  Ty : Type
  Symbol : Type
  Signature : Type
  /-- The checker before the first question. -/
  checker : Checker
  getTouchingPropertyName : Nat → Node
  getTouchingToken : Nat → Node
  /-- The source offset of the end of a node. -/
  endOffset : Node → Option Nat
  kind : Node → Kind
  parent : Node → Option Node
  text : Node → String
  isStringLiteralLike : Node → Bool
  getTypeAnnotationNode : Node → Option Node
  typeName : Node → Node
  flags : Ty → Flags
  /-- The members of a union. -/
  types : Ty → List Ty
  literalValue : Ty → Option LiteralValue
  /-- The symbol of the alias that the checker kept for a type. -/
  aliasSymbol : Ty → Option Symbol
  symbolName : Symbol → String
  symbolFlags : Symbol → Flags
  valueDeclaration : Symbol → Option Node
  parameters : Signature → List Symbol
  getTypeAtLocation : Node → Checker → Ty × Checker
  typeToString : Ty → Checker → String × Checker
  getSymbolAtLocation : Node → Checker → Option Symbol × Checker
  getSignatureFromDeclaration : Node → Checker → Signature × Checker
  getTypeOfSymbol : Symbol → Checker → Ty × Checker
  getReturnTypeOfSignature : Signature → Checker → Ty × Checker
  getResolvedModule : Node → Option ResolvedModule

/-- The declarations whose type annotation names the type of their value. -/
def VALUE_DECLARATIONS : List Kind :=
  [.Parameter, .VariableDeclaration, .PropertySignature, .PropertyDeclaration]

/-- The kinds of a declaration that has a call signature of its own. -/
def FUNCTION_DECLARATIONS : List Kind :=
  [.FunctionDeclaration, .MethodDeclaration, .MethodSignature]

namespace Tsrs

variable (tsrs : Tsrs)

def primitive (ty : tsrs.Ty) : Primitive :=
  let flags := tsrs.flags ty
  if intersects flags (TypeFlags.EnumLiteral ||| TypeFlags.Enum) then .NotPrimitive
  else if intersects flags TypeFlags.BooleanLike then .Boolean
  else if intersects flags (TypeFlags.String ||| TypeFlags.StringLiteral) then .String
  else if intersects flags (TypeFlags.Number ||| TypeFlags.NumberLiteral) then .Number
  else if intersects flags TypeFlags.BigIntLike then .BigInt
  else if intersects flags TypeFlags.ESSymbolLike then .Symbol
  else .NotPrimitive

/-- The alias an annotation names, if it names one. -/
def writtenAlias (written : tsrs.Node) (checker : tsrs.Checker) :
    Option String × tsrs.Checker :=
  if tsrs.kind written ≠ .TypeReference then (none, checker)
  else
    match tsrs.getSymbolAtLocation (tsrs.typeName written) checker with
    | (none, checker) => (none, checker)
    | (some symbol, checker) =>
      match intersects (tsrs.symbolFlags symbol) (SymbolFlags.TypeAlias ||| SymbolFlags.Alias) with
      | true => (some (tsrs.symbolName symbol), checker)
      | false => (none, checker)

/-- The alias that the declaration of a value writes. -/
def declaredAlias (declaration : Option tsrs.Node) (checker : tsrs.Checker) :
    Option String × tsrs.Checker :=
  match declaration with
  | none => (none, checker)
  | some declaration =>
    if !VALUE_DECLARATIONS.contains (tsrs.kind declaration) then (none, checker)
    else
      match tsrs.getTypeAnnotationNode declaration with
      | none => (none, checker)
      | some written => tsrs.writtenAlias written checker

def resolvedType (ty : tsrs.Ty) (declaration : Option tsrs.Node) (checker : tsrs.Checker) :
    ResolvedType × tsrs.Checker :=
  let (display, checker) := tsrs.typeToString ty checker
  let (alias_, checker) :=
    match (tsrs.aliasSymbol ty).map tsrs.symbolName with
    | some name => (some name, checker)
    | none => tsrs.declaredAlias declaration checker
  ({ display, alias_, primitive := tsrs.primitive ty }, checker)

/-- The text of a type that is a string literal. -/
def stringLiteral (ty : tsrs.Ty) : Option String :=
  if intersects (tsrs.flags ty) TypeFlags.StringLiteral then
    match tsrs.literalValue ty with
    | some (.String text) => some text
    | some .Number => none
    | some .Boolean => none
    | some .BigInt => none
    | none => none
  else none

def stringUnion (ty : tsrs.Ty) : Option StringUnion :=
  if !intersects (tsrs.flags ty) TypeFlags.Union then none
  else
    match (tsrs.types ty).mapM tsrs.stringLiteral with
    | some members => if members.isEmpty then none else some ⟨members⟩
    | none => none

/-- The loop over the parameters of a signature. -/
def describeParameters : List tsrs.Symbol → tsrs.Checker → List Parameter × tsrs.Checker
  | [], checker => ([], checker)
  | parameter :: rest, checker =>
    let (ty, checker) := tsrs.getTypeOfSymbol parameter checker
    let (ty, checker) := tsrs.resolvedType ty (tsrs.valueDeclaration parameter) checker
    let (others, checker) := describeParameters rest checker
    ({ name := tsrs.symbolName parameter, ty } :: others, checker)

def fnSignature (declaration : tsrs.Node) (checker : tsrs.Checker) :
    Option FnSignature × tsrs.Checker :=
  if !FUNCTION_DECLARATIONS.contains (tsrs.kind declaration) then (none, checker)
  else
    let (signature, checker) := tsrs.getSignatureFromDeclaration declaration checker
    let (parameters, checker) := tsrs.describeParameters (tsrs.parameters signature) checker
    let (returned, checker) := tsrs.getReturnTypeOfSignature signature checker
    let (alias_, checker) :=
      match tsrs.getTypeAnnotationNode declaration with
      | some written => tsrs.writtenAlias written checker
      | none => (none, checker)
    let (display, checker) := tsrs.typeToString returned checker
    (some
      { parameters
        returnType := { display, alias_, primitive := tsrs.primitive returned } }, checker)

/-- The file is below a directory of installed packages. -/
def inNodeModules (resolved : FilePath) : Bool :=
  resolved.components.any fun component => component = .Normal "node_modules".toList

def classify (specifier : String) (resolved : FilePath) : ImportSource :=
  if isExternalModuleNameRelative specifier then .Relative
  else
    match inNodeModules resolved with
    | true => .Dependency
    | false => .Workspace

def importSource (specifier : tsrs.Node) : ImportSource :=
  match tsrs.getResolvedModule specifier with
  | none => .Unresolved
  | some resolved =>
    if !resolved.isResolved then .Unresolved
    else classify (tsrs.text specifier) resolved.resolvedFileName

/-- A module that was found is relative by its name alone, wherever it was found. -/
theorem importSource_eq_relative {specifier : tsrs.Node} :
    tsrs.importSource specifier = .Relative ↔
      (∃ resolved, tsrs.getResolvedModule specifier = some resolved ∧ resolved.isResolved = true) ∧
        NamesFile (tsrs.text specifier) := by
  unfold importSource
  cases hmodule : tsrs.getResolvedModule specifier with
  | none => exact iff_of_false nofun fun ⟨⟨_, h, _⟩, _⟩ => by cases h
  | some resolved =>
    cases hresolved : resolved.isResolved with
    | false =>
      refine iff_of_false ?_ ?_
      · simp [hresolved]
      · rintro ⟨⟨_, h, hyes⟩, _⟩
        cases h
        cases hresolved.symm.trans hyes
    | true =>
      rw [← isExternalModuleNameRelative_iff, and_iff_right ⟨resolved, rfl, hresolved⟩]
      simp only [hresolved, classify]
      cases isExternalModuleNameRelative (tsrs.text specifier) with
      | true => exact iff_of_true rfl rfl
      | false => cases inNodeModules resolved.resolvedFileName <;> exact iff_of_false nofun nofun

/-- The declaration of the value that a token names. -/
def valueDeclarationAt (token : tsrs.Node) (checker : tsrs.Checker) :
    Option tsrs.Node × tsrs.Checker :=
  let (symbol, checker) := tsrs.getSymbolAtLocation token checker
  (symbol.bind tsrs.valueDeclaration, checker)

def answers : Answers Value tsrs.Checker tsrs.Node tsrs.Node tsrs.Ty where
  checker := tsrs.checker
  getTouchingPropertyName := tsrs.getTouchingPropertyName
  getTouchingToken := tsrs.getTouchingToken
  sourceOffset := tsrs.endOffset
  getTypeAtLocation := tsrs.getTypeAtLocation
  typeToString ty checker := ((tsrs.typeToString ty checker).1 |> TypeText.mk,
    (tsrs.typeToString ty checker).2)
  valueDeclaration := tsrs.valueDeclarationAt
  resolvedType := tsrs.resolvedType
  stringUnion := tsrs.stringUnion
  parent := tsrs.parent
  fnSignature := tsrs.fnSignature
  isStringLiteralLike := tsrs.isStringLiteralLike
  importSource := tsrs.importSource

end Tsrs

/-! ## A union of strings -/

section Unions

variable {tsrs : Tsrs}

/-- The type is a union, and its members are string literals of the texts, in order. -/
def IsStringUnion (tsrs : Tsrs) (ty : tsrs.Ty) (members : List String) : Prop :=
  intersects (tsrs.flags ty) TypeFlags.Union = true ∧ members ≠ [] ∧
    List.Forall₂ (fun member text => tsrs.stringLiteral member = some text) (tsrs.types ty) members

theorem stringLiterals_iff {types : List tsrs.Ty} {members : List String} :
    types.mapM tsrs.stringLiteral = some members ↔
      List.Forall₂ (fun member text => tsrs.stringLiteral member = some text) types members := by
  induction types generalizing members with
  | nil =>
    rw [List.mapM_nil, List.forall₂_nil_left_iff]
    exact ⟨fun h => (Option.some.inj h).symm, fun h => h ▸ rfl⟩
  | cons member rest ih =>
    rw [List.mapM_cons, List.forall₂_cons_left_iff]
    constructor
    · intro h
      obtain ⟨text, htext, h⟩ := Option.bind_eq_some_iff.mp h
      obtain ⟨texts, htexts, h⟩ := Option.bind_eq_some_iff.mp h
      exact ⟨text, texts, htext, ih.mp htexts, (Option.some.inj h).symm⟩
    · intro h
      obtain ⟨text, texts, htext, htexts, rfl⟩ := h
      exact Option.bind_eq_some_iff.mpr
        ⟨text, htext, Option.bind_eq_some_iff.mpr ⟨texts, ih.mpr htexts, rfl⟩⟩

theorem stringUnion_iff {ty : tsrs.Ty} {members : List String} :
    tsrs.stringUnion ty = some ⟨members⟩ ↔ IsStringUnion tsrs ty members := by
  unfold Tsrs.stringUnion IsStringUnion
  rw [← stringLiterals_iff]
  cases intersects (tsrs.flags ty) TypeFlags.Union with
  | false => exact ⟨nofun, nofun⟩
  | true =>
    rw [if_neg (by decide)]
    cases (tsrs.types ty).mapM tsrs.stringLiteral with
    | none => exact ⟨nofun, nofun⟩
    | some texts =>
      cases texts with
      | nil =>
        refine ⟨nofun, fun h => ?_⟩
        exact absurd (Option.some.inj h.2.2).symm h.2.1
      | cons text texts =>
        constructor
        · intro h
          obtain rfl : text :: texts = members := congrArg StringUnion.members (Option.some.inj h)
          exact ⟨rfl, nofun, rfl⟩
        · intro h
          obtain rfl := Option.some.inj h.2.2
          rfl

end Unions

/-! ## The signature of a function -/

section Signatures

variable {tsrs : Tsrs}

/-- The parameter has the name of the symbol and describes a type that the checker gave it. -/
def DescribesParameter (tsrs : Tsrs) (symbol : tsrs.Symbol) (parameter : Parameter) : Prop :=
  parameter.name = tsrs.symbolName symbol ∧ ∃ asked shown, parameter.ty =
    (tsrs.resolvedType (tsrs.getTypeOfSymbol symbol asked).1 (tsrs.valueDeclaration symbol) shown).1

/-- What a signature says of a declaration: its parameters in order, and the type it returns. The
    alias of that type is the one that the declaration writes. -/
def Signs (tsrs : Tsrs) (declaration : tsrs.Node) (described : FnSignature) : Prop :=
  ∃ checker asked named shown,
    let signature := (tsrs.getSignatureFromDeclaration declaration checker).1
    let returned := (tsrs.getReturnTypeOfSignature signature asked).1
    List.Forall₂ (DescribesParameter tsrs) (tsrs.parameters signature) described.parameters ∧
      described.returnType.display = (tsrs.typeToString returned shown).1 ∧
      described.returnType.alias_ = (tsrs.getTypeAnnotationNode declaration).bind
        (fun written => (tsrs.writtenAlias written named).1) ∧
      described.returnType.primitive = tsrs.primitive returned

theorem describeParameters_describes (symbols : List tsrs.Symbol) (checker : tsrs.Checker) :
    List.Forall₂ (DescribesParameter tsrs) symbols (tsrs.describeParameters symbols checker).1 := by
  induction symbols generalizing checker with
  | nil => exact .nil
  | cons symbol rest ih => exact .cons ⟨rfl, checker, _, rfl⟩ (ih _)

/-- Exactly a function declaration has a signature. -/
theorem fnSignature_cases (declaration : tsrs.Node) (checker : tsrs.Checker) :
    (tsrs.kind declaration ∉ FUNCTION_DECLARATIONS ∧ (tsrs.fnSignature declaration checker).1 = none) ∨
      tsrs.kind declaration ∈ FUNCTION_DECLARATIONS ∧ ∃ described,
        (tsrs.fnSignature declaration checker).1 = some described ∧
          Signs tsrs declaration described := by
  unfold Tsrs.fnSignature
  by_cases hkind : tsrs.kind declaration ∈ FUNCTION_DECLARATIONS
  · have hcontains : FUNCTION_DECLARATIONS.contains (tsrs.kind declaration) = true :=
      List.contains_iff_mem.mpr hkind
    rw [hcontains, if_neg (by decide)]
    let signature := tsrs.getSignatureFromDeclaration declaration checker
    let parameters := tsrs.describeParameters (tsrs.parameters signature.1) signature.2
    let returned := tsrs.getReturnTypeOfSignature signature.1 parameters.2
    refine Or.inr ⟨hkind, _, rfl, checker, parameters.2, returned.2, _,
      describeParameters_describes _ _, rfl, ?_, rfl⟩
    cases tsrs.getTypeAnnotationNode declaration with
    | none => rfl
    | some written => rfl
  · have hcontains : FUNCTION_DECLARATIONS.contains (tsrs.kind declaration) = false :=
      Bool.eq_false_iff.mpr fun h => hkind (List.contains_iff_mem.mp h)
    rw [hcontains, if_pos (by decide)]
    exact Or.inl ⟨hkind, rfl⟩

end Signatures

/-! ## What the loops record -/

section Loops

variable (tsrs : Tsrs) (KEY : TypeScriptDecoration → DecorationKey)

/-- One decoration of the provider. -/
def entry (nodeId : Nat) (T : TypeScriptDecoration) (value : Value T) :
    Entry (typeScriptDecorations KEY Value) :=
  Entry.new nodeId T value

/-- tsrs finds the target by its range. -/
def Found (target : Target) : Prop :=
  tsrs.endOffset (tsrs.getTouchingPropertyName target.start) = some target.stop

/-- The declaration that the name of a function belongs to. -/
def Declares (target : Target) (declaration : tsrs.Node) : Prop :=
  Found tsrs target ∧ tsrs.parent (tsrs.getTouchingPropertyName target.start) = some declaration ∧
    tsrs.kind declaration ∈ FUNCTION_DECLARATIONS

/-- A module specifier that tsrs finds. -/
def Specifies (target : Target) (specifier : tsrs.Node) : Prop :=
  tsrs.getTouchingToken target.start = specifier ∧
    tsrs.endOffset specifier = some target.stop ∧ tsrs.isStringLiteralLike specifier = true

/-- What the decorations of an identifier say, all of one answer of the checker. -/
def Typed (target : Target) (text : TypeText) (resolved : ResolvedType)
    (union : Option StringUnion) : Prop :=
  ∃ checker : tsrs.Checker,
    let token := tsrs.getTouchingPropertyName target.start
    let asked := tsrs.getTypeAtLocation token checker
    let shown := tsrs.typeToString asked.1 asked.2
    let declared := tsrs.valueDeclarationAt token shown.2
    text.text = shown.1 ∧ resolved = (tsrs.resolvedType asked.1 declared.1 declared.2).1 ∧
      ∀ members, union = some ⟨members⟩ ↔ IsStringUnion tsrs asked.1 members

inductive ValueGives (target : Target) : List (Entry (typeScriptDecorations KEY Value)) → Prop where
  | missed (h : ¬Found tsrs target) : ValueGives target []
  | typed (h : Found tsrs target) (text : TypeText) (resolved : ResolvedType)
    (union : Option StringUnion) (htyped : Typed tsrs target text resolved union) :
    ValueGives target
      (entry KEY target.nodeId .TypeText text :: entry KEY target.nodeId .ResolvedType resolved ::
        (union.map (entry KEY target.nodeId .StringUnion)).toList)

inductive FunctionGives (target : Target) :
    List (Entry (typeScriptDecorations KEY Value)) → Prop where
  | missed (h : ∀ declaration, ¬Declares tsrs target declaration) : FunctionGives target []
  | signed (declaration : tsrs.Node) (h : Declares tsrs target declaration)
    (described : FnSignature) (hsigns : Signs tsrs declaration described) :
    FunctionGives target [entry KEY target.nodeId .FnSignature described]

inductive ModuleGives (target : Target) :
    List (Entry (typeScriptDecorations KEY Value)) → Prop where
  | missed (h : ∀ specifier, ¬Specifies tsrs target specifier) : ModuleGives target []
  | imported (specifier : tsrs.Node) (h : Specifies tsrs target specifier) :
    ModuleGives target [entry KEY target.nodeId .ImportSource (tsrs.importSource specifier)]

variable {tsrs KEY} {target : Target} {own : List (Entry (typeScriptDecorations KEY Value))}
  {nodeId : Nat} {T : TypeScriptDecoration} {value : Value T}

theorem mark_of_eq {T' : TypeScriptDecoration} {value' : Value T'} {other : Nat}
    (h : entry KEY nodeId T value = entry KEY other T' value') : nodeId = other ∧ T = T' :=
  Prod.mk.inj (congrArg Entry.mark h)

theorem ValueGives.made (h : ValueGives tsrs KEY target own) : ∀ e ∈ own, e.Made := by
  cases h with
  | missed h => exact nofun
  | typed h text resolved union htyped =>
    intro e he
    rcases List.mem_cons.mp he with rfl | he
    · rfl
    · rcases List.mem_cons.mp he with rfl | he
      · rfl
      · obtain ⟨found, _, rfl⟩ := Option.map_eq_some_iff.mp (Option.mem_toList.mp he)
        rfl

theorem FunctionGives.made (h : FunctionGives tsrs KEY target own) : ∀ e ∈ own, e.Made := by
  cases h with
  | missed h => exact nofun
  | signed declaration h described hsigns =>
    intro e he
    obtain rfl := List.mem_singleton.mp he
    rfl

theorem ModuleGives.made (h : ModuleGives tsrs KEY target own) : ∀ e ∈ own, e.Made := by
  cases h with
  | missed h => exact nofun
  | imported specifier h =>
    intro e he
    obtain rfl := List.mem_singleton.mp he
    rfl

theorem ValueGives.of_mem (h : ValueGives tsrs KEY target own)
    (hmem : entry KEY nodeId T value ∈ own) :
    nodeId = target.nodeId ∧ Found tsrs target ∧
      (T = .TypeText ∨ T = .ResolvedType ∨ T = .StringUnion) := by
  cases h with
  | missed h => cases hmem
  | typed h text resolved union htyped =>
    rcases List.mem_cons.mp hmem with htext | hmem
    · exact ⟨(mark_of_eq htext).1, h, Or.inl (mark_of_eq htext).2⟩
    · rcases List.mem_cons.mp hmem with hresolved | hunion
      · exact ⟨(mark_of_eq hresolved).1, h, Or.inr (Or.inl (mark_of_eq hresolved).2)⟩
      · obtain ⟨found, _, hfound⟩ := Option.map_eq_some_iff.mp (Option.mem_toList.mp hunion)
        exact ⟨(mark_of_eq hfound.symm).1, h, Or.inr (Or.inr (mark_of_eq hfound.symm).2)⟩

theorem FunctionGives.of_mem (h : FunctionGives tsrs KEY target own)
    (hmem : entry KEY nodeId T value ∈ own) :
    nodeId = target.nodeId ∧ (∃ declaration, Declares tsrs target declaration) ∧
      T = .FnSignature := by
  cases h with
  | missed h => cases hmem
  | signed declaration h described hsigns =>
    obtain ⟨hnode, hT⟩ := mark_of_eq (List.mem_singleton.mp hmem)
    exact ⟨hnode, ⟨declaration, h⟩, hT⟩

theorem ModuleGives.of_mem (h : ModuleGives tsrs KEY target own)
    (hmem : entry KEY nodeId T value ∈ own) :
    nodeId = target.nodeId ∧ (∃ specifier, Specifies tsrs target specifier) ∧
      T = .ImportSource := by
  cases h with
  | missed h => cases hmem
  | imported specifier h =>
    obtain ⟨hnode, hT⟩ := mark_of_eq (List.mem_singleton.mp hmem)
    exact ⟨hnode, ⟨specifier, h⟩, hT⟩

theorem ValueGives.of_found (h : ValueGives tsrs KEY target own) (hfound : Found tsrs target) :
    ∃ text resolved union, Typed tsrs target text resolved union ∧
      entry KEY target.nodeId .TypeText text ∈ own ∧
      entry KEY target.nodeId .ResolvedType resolved ∈ own ∧
      ∀ members, entry KEY target.nodeId .StringUnion members ∈ own ↔ union = some members := by
  cases h with
  | missed h => exact absurd hfound h
  | typed h text resolved union htyped =>
    refine ⟨text, resolved, union, htyped, List.mem_cons_self,
      List.mem_cons_of_mem _ List.mem_cons_self, fun members => ⟨fun hmem => ?_, fun hunion => ?_⟩⟩
    · rcases List.mem_cons.mp hmem with htext | hmem
      · cases (mark_of_eq htext).2
      · rcases List.mem_cons.mp hmem with hresolved | hmem
        · cases (mark_of_eq hresolved).2
        · obtain ⟨found, hunion, hentry⟩ := Option.map_eq_some_iff.mp (Option.mem_toList.mp hmem)
          cases hentry
          exact hunion
    · rw [hunion]
      exact List.mem_cons_of_mem _ (List.mem_cons_of_mem _ (List.mem_singleton.mpr rfl))

theorem FunctionGives.of_declares (h : FunctionGives tsrs KEY target own)
    {declaration : tsrs.Node} (hdeclares : Declares tsrs target declaration) :
    ∃ described, Signs tsrs declaration described ∧
      entry KEY target.nodeId .FnSignature described ∈ own := by
  cases h with
  | missed h => exact absurd hdeclares (h declaration)
  | signed found h described hsigns =>
    obtain rfl := Option.some.inj (h.2.1.symm.trans hdeclares.2.1)
    exact ⟨described, hsigns, List.mem_singleton.mpr rfl⟩

theorem ModuleGives.of_specifies (h : ModuleGives tsrs KEY target own)
    {specifier : tsrs.Node} (hspecifies : Specifies tsrs target specifier) :
    entry KEY target.nodeId .ImportSource (tsrs.importSource specifier) ∈ own := by
  cases h with
  | missed h => exact absurd hspecifies (h specifier)
  | imported found h =>
    obtain rfl := h.1.symm.trans hspecifies.1
    exact List.mem_singleton.mpr rfl

theorem decorateValue_gives
    (state : tsrs.Checker × DecorationMap (typeScriptDecorations KEY Value)) (target : Target) :
    ∃ own, ValueGives tsrs KEY target own ∧
      (decorateValue tsrs.answers state target).2.entries = state.2.entries ++ own := by
  unfold decorateValue
  dsimp only
  split
  · rename_i hmissed
    exact ⟨[], .missed hmissed, (List.append_nil _).symm⟩
  · rename_i hfound
    let asked := tsrs.getTypeAtLocation (tsrs.getTouchingPropertyName target.start) state.1
    let shown := tsrs.typeToString asked.1 asked.2
    let declared := tsrs.valueDeclarationAt (tsrs.getTouchingPropertyName target.start) shown.2
    have htyped : Typed tsrs target ⟨shown.1⟩
        (tsrs.resolvedType asked.1 declared.1 declared.2).1 (tsrs.stringUnion asked.1) :=
      ⟨state.1, rfl, rfl, fun _ => stringUnion_iff⟩
    refine ⟨_, .typed (not_not.mp hfound) _ _ _ htyped, ?_⟩
    rw [DecorationMap.entries_insertAnswer]
    exact List.append_assoc _ _ _ |>.trans (List.append_assoc _ _ _)

theorem decorateFunction_gives
    (state : tsrs.Checker × DecorationMap (typeScriptDecorations KEY Value)) (target : Target) :
    ∃ own, FunctionGives tsrs KEY target own ∧
      (decorateFunction tsrs.answers state target).2.entries = state.2.entries ++ own := by
  unfold decorateFunction
  dsimp only
  split
  · rename_i hmissed
    exact ⟨[], .missed fun declaration h => hmissed h.1, (List.append_nil _).symm⟩
  · rename_i hfound
    split
    · rename_i hparent
      refine ⟨[], .missed fun declaration h => ?_, (List.append_nil _).symm⟩
      cases hparent.symm.trans h.2.1
    · rename_i declaration hparent
      rw [DecorationMap.entries_insertAnswer]
      change ∃ own, _ ∧ state.2.entries ++ ((tsrs.fnSignature declaration state.1).1.map _).toList = _
      rcases fnSignature_cases declaration state.1 with ⟨hkind, hnone⟩ | ⟨hkind, described, hsome, hsigns⟩
      · rw [hnone]
        refine ⟨[], .missed fun other h => ?_, rfl⟩
        obtain rfl := Option.some.inj (hparent.symm.trans h.2.1)
        exact hkind h.2.2
      · rw [hsome]
        exact ⟨_, .signed declaration ⟨not_not.mp hfound, hparent, hkind⟩ described hsigns, rfl⟩

theorem decorateModule_gives
    (state : tsrs.Checker × DecorationMap (typeScriptDecorations KEY Value)) (target : Target) :
    ∃ own, ModuleGives tsrs KEY target own ∧
      (decorateModule tsrs.answers state target).2.entries = state.2.entries ++ own := by
  unfold decorateModule
  dsimp only
  split
  · rename_i hmissed
    refine ⟨[], .missed fun specifier h => ?_, (List.append_nil _).symm⟩
    obtain ⟨rfl, hend, hliteral⟩ := h
    exact hmissed.elim (· hend) (· hliteral)
  · rename_i hfound
    obtain ⟨hend, hliteral⟩ := not_or.mp hfound
    exact ⟨_, .imported _ ⟨rfl, not_not.mp hend, not_not.mp hliteral⟩, rfl⟩

end Loops

/-! ## The map -/

section Map

variable {tsrs : Tsrs} {KEY : TypeScriptDecoration → DecorationKey} {fields : FieldNames}
  {t : SyntaxTree}

/-- Where no mark repeats, no node is the target of one loop twice. -/
theorem nodup_nodeIds {marks : Target → List (Nat × TypeScriptDecoration)}
    {T : TypeScriptDecoration} (hmark : ∀ target, (target.nodeId, T) ∈ marks target)
    {targets : List Target} (h : (targets.flatMap marks).Nodup) :
    (targets.map Target.nodeId).Nodup := by
  have hsub : ((targets.map Target.nodeId).map fun nodeId => (nodeId, T)).Sublist
      (targets.flatMap marks) := by
    rw [List.map_map, List.map_eq_flatMap]
    exact List.Sublist.flatMap_right targets fun target _ =>
      List.singleton_sublist.mpr (hmark target)
  exact (hsub.nodup h).of_map _

theorem nodup_targets (fields : FieldNames) (hids : t.ids.Nodup) :
    let targets := collectTargets fields t Targets.default
    (targets.values.map Target.nodeId).Nodup ∧ (targets.functions.map Target.nodeId).Nodup ∧
      (targets.modules.map Target.nodeId).Nodup := by
  intro targets
  obtain ⟨hvalues, hothers, -⟩ := List.nodup_append.mp (nodup_marks hids : targets.marks.Nodup)
  obtain ⟨hfunctions, hmodules, -⟩ := List.nodup_append.mp hothers
  exact ⟨nodup_nodeIds (fun target => List.mem_cons_self) hvalues,
    nodup_nodeIds (fun target => List.mem_cons_self) hfunctions,
    nodup_nodeIds (fun target => List.mem_cons_self) hmodules⟩

/-- The entries of the map, loop by loop. -/
theorem entries_decorate (tsrs : Tsrs) (KEY : TypeScriptDecoration → DecorationKey)
    (fields : FieldNames) (hids : t.ids.Nodup) :
    let targets := collectTargets fields t Targets.default
    ∃ values functions modules : Target → List (Entry (typeScriptDecorations KEY Value)),
      (∀ target ∈ targets.values, ValueGives tsrs KEY target (values target)) ∧
      (∀ target ∈ targets.functions, FunctionGives tsrs KEY target (functions target)) ∧
      (∀ target ∈ targets.modules, ModuleGives tsrs KEY target (modules target)) ∧
      (decorate fields tsrs.answers t : DecorationMap (typeScriptDecorations KEY Value)).entries =
        targets.values.flatMap values ++ targets.functions.flatMap functions ++
          targets.modules.flatMap modules := by
  intro targets
  obtain ⟨hvalues, hfunctions, hmodules⟩ := nodup_targets fields hids
  let start : tsrs.Checker × DecorationMap (typeScriptDecorations KEY Value) :=
    (tsrs.checker, DecorationMap.new)
  obtain ⟨values, hfirst, hentries⟩ := foldl_entries decorateValue_gives hvalues.of_map start
  obtain ⟨functions, hsecond, hmore⟩ := foldl_entries decorateFunction_gives hfunctions.of_map
    (targets.values.foldl (decorateValue tsrs.answers) start)
  obtain ⟨modules, hthird, hall⟩ := foldl_entries decorateModule_gives hmodules.of_map
    (targets.functions.foldl (decorateFunction tsrs.answers)
      (targets.values.foldl (decorateValue tsrs.answers) start))
  refine ⟨values, functions, modules, hfirst, hsecond, hthird, ?_⟩
  refine hall.trans ?_
  rw [hmore, hentries]
  rfl

theorem wellSealed_decorate :
    (decorate fields tsrs.answers t :
      DecorationMap (typeScriptDecorations KEY Value)).WellSealed := by
  have hvalue : Records (D := typeScriptDecorations KEY Value) valueMarks
      (decorateValue tsrs.answers) := records_decorateValue _
  have hfunction : Records (D := typeScriptDecorations KEY Value) functionMarks
      (decorateFunction tsrs.answers) := records_decorateFunction _
  have hmodule : Records (D := typeScriptDecorations KEY Value) moduleMarks
      (decorateModule tsrs.answers) := records_decorateModule _
  exact foldl_wellSealed hmodule _ _ (foldl_wellSealed hfunction _ _
    (foldl_wellSealed hvalue _ _ (DecorationMap.wellSealed_of_none rfl)))

/-- A read answers exactly what one of the loops recorded. -/
theorem get_decorate (tsrs : Tsrs) (fields : FieldNames) (hkeys : Function.Injective KEY)
    (hids : t.ids.Nodup) :
    let targets := collectTargets fields t Targets.default
    let map : DecorationMap (typeScriptDecorations KEY Value) := decorate fields tsrs.answers t
    ∃ values functions modules : Target → List (Entry (typeScriptDecorations KEY Value)),
      (∀ target ∈ targets.values, ValueGives tsrs KEY target (values target)) ∧
      (∀ target ∈ targets.functions, FunctionGives tsrs KEY target (functions target)) ∧
      (∀ target ∈ targets.modules, ModuleGives tsrs KEY target (modules target)) ∧
      ∀ (T : TypeScriptDecoration) (nodeId : Nat) (value : Value T),
        map.get T nodeId = some value ↔
          (∃ target ∈ targets.values, entry KEY nodeId T value ∈ values target) ∨
          (∃ target ∈ targets.functions, entry KEY nodeId T value ∈ functions target) ∨
          ∃ target ∈ targets.modules, entry KEY nodeId T value ∈ modules target := by
  intro targets map
  obtain ⟨values, functions, modules, hvalues, hfunctions, hmodules, hentries⟩ :=
    entries_decorate tsrs KEY fields hids
  have hmem : ∀ e, e ∈ map.entries ↔ (∃ target ∈ targets.values, e ∈ values target) ∨
      (∃ target ∈ targets.functions, e ∈ functions target) ∨
      ∃ target ∈ targets.modules, e ∈ modules target := by
    intro e
    rw [hentries, List.mem_append, List.mem_append, List.mem_flatMap, List.mem_flatMap,
      List.mem_flatMap, or_assoc]
  refine ⟨values, functions, modules, hvalues, hfunctions, hmodules, fun T nodeId value => ?_⟩
  rw [DecorationMap.get_iff wellSealed_decorate hkeys ?_ (oneOfEach_decorate _ hids)]
  · exact hmem _
  · intro e he
    rcases (hmem e).mp he with ⟨target, htarget, he⟩ | ⟨target, htarget, he⟩ | ⟨target, htarget, he⟩
    · exact (hvalues target htarget).made e he
    · exact (hfunctions target htarget).made e he
    · exact (hmodules target htarget).made e he

/-- tsrs finds the target, and its loop records decorations of the type. -/
def Asked (tsrs : Tsrs) (targets : Targets) (target : Target) : TypeScriptDecoration → Prop
  | .TypeText => target ∈ targets.values ∧ Found tsrs target
  | .ResolvedType => target ∈ targets.values ∧ Found tsrs target
  | .StringUnion => target ∈ targets.values ∧ Found tsrs target
  | .FnSignature => target ∈ targets.functions ∧ ∃ declaration, Declares tsrs target declaration
  | .ImportSource => target ∈ targets.modules ∧ ∃ specifier, Specifies tsrs target specifier

/-- A node is decorated only where tsrs finds its target. The decorations of an identifier are all
    of one answer of the checker, a union of strings exactly where its type is one. A declaration
    has its signature, and a specifier the source that its module resolves to, which is relative
    exactly if the module was found and has the name of a file. -/
theorem decorations_described (fields : FieldNames) (tsrs : Tsrs)
    (hkeys : Function.Injective KEY) {t : SyntaxTree} (hids : t.ids.Nodup) :
    let targets := targetsOf fields t.visited
    let map : DecorationMap (typeScriptDecorations KEY Value) := decorate fields tsrs.answers t
    (∀ (T : TypeScriptDecoration) (nodeId : Nat) (value : Value T), map.get T nodeId = some value →
      ∃ target, target.nodeId = nodeId ∧ Asked tsrs targets target T) ∧
    (∀ target, Asked tsrs targets target .TypeText → ∃ text resolved,
      map.get .TypeText target.nodeId = some text ∧
      map.get .ResolvedType target.nodeId = some resolved ∧
      Typed tsrs target text resolved (map.get .StringUnion target.nodeId)) ∧
    (∀ target ∈ targets.functions, ∀ declaration, Declares tsrs target declaration →
      ∃ described, map.get .FnSignature target.nodeId = some described ∧
        Signs tsrs declaration described) ∧
    ∀ target ∈ targets.modules, ∀ specifier, Specifies tsrs target specifier →
      map.get .ImportSource target.nodeId = some (tsrs.importSource specifier) ∧
        (tsrs.importSource specifier = .Relative ↔ (∃ resolved,
          tsrs.getResolvedModule specifier = some resolved ∧ resolved.isResolved = true) ∧
            NamesFile (tsrs.text specifier)) := by
  intro targets map
  obtain ⟨values, functions, modules, hvalues, hfunctions, hmodules, hget⟩ :=
    get_decorate tsrs fields hkeys hids
  have htargets : collectTargets fields t Targets.default = targets := collectTargets_eq t _
  have hnodes := (nodup_targets fields hids).1
  rw [htargets] at hvalues hfunctions hmodules hnodes
  simp only [htargets] at hget
  refine ⟨fun T nodeId value hsome => ?_, fun target hasked => ?_,
    fun target htarget declaration hdeclares => ?_, fun target htarget specifier hspecifies => ?_⟩
  · rcases (hget T nodeId value).mp hsome with ⟨target, htarget, hmem⟩ | ⟨target, htarget, hmem⟩ |
      ⟨target, htarget, hmem⟩
    · obtain ⟨hnode, hfound, rfl | rfl | rfl⟩ := (hvalues target htarget).of_mem hmem
      · exact ⟨target, hnode.symm, htarget, hfound⟩
      · exact ⟨target, hnode.symm, htarget, hfound⟩
      · exact ⟨target, hnode.symm, htarget, hfound⟩
    · obtain ⟨hnode, hdeclares, rfl⟩ := (hfunctions target htarget).of_mem hmem
      exact ⟨target, hnode.symm, htarget, hdeclares⟩
    · obtain ⟨hnode, hspecifies, rfl⟩ := (hmodules target htarget).of_mem hmem
      exact ⟨target, hnode.symm, htarget, hspecifies⟩
  · obtain ⟨htarget, hfound⟩ := hasked
    obtain ⟨text, resolved, union, htyped, htext, hresolved, hunion⟩ :=
      (hvalues target htarget).of_found hfound
    have hsame : map.get .StringUnion target.nodeId = union := by
      refine Option.ext fun members => ?_
      rw [← hunion, hget]
      constructor
      · intro h
        rcases h with ⟨other, hother, hmem⟩ | ⟨other, hother, hmem⟩ | ⟨other, hother, hmem⟩
        · have hnode := ((hvalues other hother).of_mem hmem).1
          obtain rfl := List.inj_on_of_nodup_map hnodes htarget hother hnode
          exact hmem
        · cases ((hfunctions other hother).of_mem hmem).2.2
        · cases ((hmodules other hother).of_mem hmem).2.2
      · exact fun hmem => Or.inl ⟨target, htarget, hmem⟩
    rw [hsame]
    exact ⟨text, resolved, (hget _ _ _).mpr (Or.inl ⟨target, htarget, htext⟩),
      (hget _ _ _).mpr (Or.inl ⟨target, htarget, hresolved⟩), htyped⟩
  · obtain ⟨described, hsigns, hmem⟩ := (hfunctions target htarget).of_declares hdeclares
    exact ⟨described, (hget _ _ _).mpr (Or.inr (Or.inl ⟨target, htarget, hmem⟩)), hsigns⟩
  · have hmem := (hmodules target htarget).of_specifies hspecifies
    exact ⟨(hget _ _ _).mpr (Or.inr (Or.inr ⟨target, htarget, hmem⟩)),
      tsrs.importSource_eq_relative⟩

end Map

/-! ## A file with one function -/

def span (id : Nat) (kind : String) (start length : Nat) : NodeInfo :=
  { id, kind, named := true, startByte := start, endByte := start + length
    start_le_end := Nat.le_add_right start length }

/-- `import "./kinds"; function pick(kind: "a" | "b"): void {}` -/
def mainTree : SyntaxTree :=
  .node (span 0 "program" 0 57)
    [.node (span 1 "import_statement" 0 17) [.node (span 2 "string" 7 9) []],
      .node (span 3 "function_declaration" 18 39)
        [.node (span 4 "identifier" 27 4) [],
          .node (span 5 "formal_parameters" 31 17)
            [.node (span 6 "required_parameter" 32 15) [.node (span 7 "identifier" 32 4) []]]]]

def mainFields : FieldNames := fun id =>
  if id = 2 then ["source"] else if id = 4 then ["name"] else if id = 7 then ["pattern"] else []

inductive MainNode where
  | specifier
  | declaration
  | pick
  | parameter
  | kind
  | kinds
  | void

inductive MainTy where
  | function
  | kinds
  | a
  | b
  | void

inductive MainSymbol where
  | pick
  | kind

/-- The checker counts the questions. -/
def mainTsrs : Tsrs where
  Checker := Nat
  Node := MainNode
  Ty := MainTy
  Symbol := MainSymbol
  Signature := Unit
  checker := 0
  getTouchingPropertyName position :=
    if position = 27 then .pick else if position = 32 then .kind else .declaration
  getTouchingToken position := if position = 7 then .specifier else .declaration
  endOffset
    | .specifier => some 16
    | .declaration => some 57
    | .pick => some 31
    | .parameter => some 47
    | .kind => some 36
    | .kinds => some 47
    | .void => some 54
  kind
    | .declaration => .FunctionDeclaration
    | .parameter => .Parameter
    | _ => .Other
  parent
    | .specifier => none
    | .declaration => none
    | .pick => some .declaration
    | .parameter => some .declaration
    | .kind => some .parameter
    | .kinds => some .parameter
    | .void => some .declaration
  text
    | .specifier => "./kinds"
    | .pick => "pick"
    | .kind => "kind"
    | _ => ""
  isStringLiteralLike
    | .specifier => true
    | _ => false
  getTypeAnnotationNode
    | .declaration => some .void
    | .parameter => some .kinds
    | _ => none
  typeName node := node
  flags
    | .function => 1 <<< 20
    | .kinds => TypeFlags.Union
    | .a => TypeFlags.StringLiteral
    | .b => TypeFlags.StringLiteral
    | .void => 1 <<< 4
  types
    | .kinds => [.a, .b]
    | _ => []
  literalValue
    | .a => some (.String "a")
    | .b => some (.String "b")
    | _ => none
  aliasSymbol _ := none
  symbolName
    | .pick => "pick"
    | .kind => "kind"
  symbolFlags
    | .pick => 1 <<< 4
    | .kind => 1 <<< 0
  valueDeclaration
    | .pick => some .declaration
    | .kind => some .parameter
  parameters _ := [.kind]
  getTypeAtLocation node asked :=
    (match node with
      | .pick => .function
      | .kind => .kinds
      | _ => .void, asked + 1)
  typeToString ty asked :=
    (match ty with
      | .function => "(kind: \"a\" | \"b\") => void"
      | .kinds => "\"a\" | \"b\""
      | .a => "\"a\""
      | .b => "\"b\""
      | .void => "void", asked + 1)
  getSymbolAtLocation node asked :=
    (match node with
      | .pick => some .pick
      | .kind => some .kind
      | _ => none, asked + 1)
  getSignatureFromDeclaration _ asked := ((), asked + 1)
  getTypeOfSymbol symbol asked :=
    (match symbol with
      | .pick => .function
      | .kind => .kinds, asked + 1)
  getReturnTypeOfSignature _ asked := (.void, asked + 1)
  getResolvedModule
    | .specifier => some ⟨true, ⟨"/app/kinds.ts"⟩⟩
    | _ => none

def typeScriptKey : TypeScriptDecoration → DecorationKey
  | .TypeText => ⟨"TypeText"⟩
  | .ResolvedType => ⟨"ResolvedType"⟩
  | .StringUnion => ⟨"StringUnion"⟩
  | .FnSignature => ⟨"FnSignature"⟩
  | .ImportSource => ⟨"ImportSource"⟩

/-- The parameter takes two texts, the function returns nothing, and the import is relative. -/
theorem decorations_described_main :
    let map : DecorationMap (typeScriptDecorations typeScriptKey Value) :=
      decorate mainFields mainTsrs.answers mainTree
    map.get .StringUnion 7 = some ⟨["a", "b"]⟩ ∧ map.get .ImportSource 2 = some .Relative ∧
      ∃ described, map.get .FnSignature 3 = some described ∧
        described.returnType.display = "void" := by
  intro map
  have hkeys : Function.Injective typeScriptKey := by
    intro T T' h
    cases T <;> cases T' <;> first | rfl | exact absurd h (by decide)
  obtain ⟨-, hvalues, hfunctions, hmodules⟩ :=
    decorations_described mainFields mainTsrs hkeys (show mainTree.ids.Nodup by decide)
  refine ⟨?_, ?_, ?_⟩
  · obtain ⟨text, resolved, -, -, checker, -, -, hunion⟩ :=
      hvalues ⟨7, 32, 36, by decide, by decide⟩ ⟨by decide, rfl⟩
    have hflag : intersects TypeFlags.Union TypeFlags.Union = true := by decide
    exact (hunion ["a", "b"]).mpr ⟨hflag, List.cons_ne_nil _ _, .cons rfl (.cons rfl .nil)⟩
  · exact (hmodules ⟨2, 7, 16, by decide, by decide⟩ (by decide) .specifier ⟨rfl, rfl, rfl⟩).1
  · obtain ⟨described, hdescribed, checker, asked, named, shown, -, hdisplay, -⟩ :=
      hfunctions ⟨3, 27, 31, by decide, by decide⟩ (by decide) .declaration
        ⟨rfl, rfl, by decide⟩
    exact ⟨described, hdescribed, hdisplay⟩

end Stiles.TypeScriptProvider
