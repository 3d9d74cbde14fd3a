import Stiles.Rust.Covering
import Stiles.Rust.Marks
import Stiles.Rust.PublicPaths

/-
  What the Rust provider records (`decorations/` and the resolvers of `provider.rs` in stiles-rust).

  `TypeDatabase` is what rust-analyzer knows of types and functions, `FileSemantics` what it says of
  one file, and `DecorateCtx` what the resolvers share. `answers` are the answers that
  `resolveTargets` asks for.

  * `entries_resolveTargets`: the run over the targets records for each what it would record for it
    alone. The paths looked up before change nothing.
  * `decorations_right`: a node holds what its one target asks for, and a rule may rely on it.
-/

namespace Stiles.RustProvider

/-! ## The decorations -/

inductive AdtKind where
  | Enum
  | Other
deriving DecidableEq, Repr

inductive NeverKind where
  | Never
  | Other
deriving DecidableEq, Repr

inductive ResultKind where
  | Result
  | Other
deriving DecidableEq, Repr

inductive OptionKind where
  | Option
  | Other
deriving DecidableEq, Repr

structure ResolvedType where
  display : String
  adtKind : AdtKind
  neverKind : NeverKind
  resultKind : ResultKind
  optionKind : OptionKind
deriving DecidableEq, Repr

namespace ResolvedType

def new (display : String) : ResolvedType :=
  { display, adtKind := .Other, neverKind := .Other, resultKind := .Other, optionKind := .Other }

def withAdtKind (ty : ResolvedType) (kind : AdtKind) : ResolvedType := { ty with adtKind := kind }

def withNeverKind (ty : ResolvedType) (kind : NeverKind) : ResolvedType :=
  { ty with neverKind := kind }

def withResultKind (ty : ResolvedType) (kind : ResultKind) : ResolvedType :=
  { ty with resultKind := kind }

def withOptionKind (ty : ResolvedType) (kind : OptionKind) : ResolvedType :=
  { ty with optionKind := kind }

def isEnum (ty : ResolvedType) : Bool :=
  match ty.adtKind with
  | .Enum => true
  | .Other => false

def isNever (ty : ResolvedType) : Bool :=
  match ty.neverKind with
  | .Never => true
  | .Other => false

def isResult (ty : ResolvedType) : Bool :=
  match ty.resultKind with
  | .Result => true
  | .Other => false

def isOption (ty : ResolvedType) : Bool :=
  match ty.optionKind with
  | .Option => true
  | .Other => false

end ResolvedType

/-- The path of a type's definition. -/
structure TypePath where
  krate : String
  modules : List String
  name : String
deriving DecidableEq, Repr

/-- The path that a rule compares with. -/
structure TypePathRef where
  krate : String
  modules : List String
  name : String
deriving DecidableEq, Repr

/-- `PartialEq<TypePathRef<'_>> for TypePath`. -/
def TypePath.eq (path : TypePath) (other : TypePathRef) : Bool :=
  path.krate == other.krate && path.name == other.name &&
    path.modules.length == other.modules.length &&
    (path.modules.zip other.modules).all fun segments => segments.1 == segments.2

inductive ErrorType where
  | Named (path : TypePath)
  | Generic
  | Unnamed
deriving DecidableEq, Repr

def ErrorType.is (error : ErrorType) (path : TypePathRef) : Bool :=
  match error with
  | .Named actual => actual.eq path
  | .Generic => false
  | .Unnamed => false

inductive ReturnMode where
  | Direct
  | Awaited
  | Opaque
deriving DecidableEq, Repr

structure FnSignature where
  returnType : Option ResolvedType
  errorType : Option ErrorType
  returnMode : ReturnMode
deriving DecidableEq, Repr

inductive Exhaustiveness where
  | Exhaustive
  | NonExhaustive
deriving DecidableEq, Repr

structure AdtFlags where
  exhaustiveness : Exhaustiveness
deriving DecidableEq, Repr

inductive ImportSource where
  | Module
  | Enum
  | Other
  | Unresolved
deriving DecidableEq, Repr

structure Reexports where
  paths : List Database.PublicPath
deriving DecidableEq

/-- The value of each decoration. -/
@[reducible] def Value : RustDecoration → Type
  | .FnSignature => FnSignature
  | .ResolvedType => ResolvedType
  | .AdtFlags => AdtFlags
  | .ImportSource => ImportSource
  | .Reexports => Reexports

theorem zip_all_beq : ∀ {left right : List String}, left.length = right.length →
    (((left.zip right).all fun segments => segments.1 == segments.2) = true ↔ left = right)
  | [], [], _ => by simp
  | a :: left, b :: right, h => by
    have hrest := zip_all_beq (Nat.succ.inj h)
    rw [List.zip_cons_cons, List.all_cons, Bool.and_eq_true, hrest, beq_iff_eq, List.cons.injEq]

/-- The comparison is by the whole path. -/
theorem TypePath.eq_iff {path : TypePath} {other : TypePathRef} :
    path.eq other = true ↔ path = ⟨other.krate, other.modules, other.name⟩ := by
  obtain ⟨krate, modules, name⟩ := path
  simp only [TypePath.eq, Bool.and_eq_true, beq_iff_eq, TypePath.mk.injEq]
  constructor
  · intro h
    obtain ⟨⟨⟨hkrate, hname⟩, hlength⟩, hall⟩ := h
    exact ⟨hkrate, (zip_all_beq hlength).mp hall, hname⟩
  · intro h
    obtain ⟨hkrate, hmodules, hname⟩ := h
    have hlength : modules.length = other.modules.length := congrArg List.length hmodules
    exact ⟨⟨⟨hkrate, hname⟩, hlength⟩, (zip_all_beq hlength).mpr hmodules⟩

/-! ## rust-analyzer -/

inductive Adt (hir : Hir) where
  | Enum (id : hir.Enum)
  | Struct (id : hir.Other)
  | Union (id : hir.Other)

/-- What a path resolves to. -/
inductive PathResolution (hir : Hir) where
  | Def (definition : ModuleDef hir)
  | Local
  | TypeParam
  | ConstParam
  | SelfType
  | BuiltinAttr
  | ToolModule
  | DeriveHelper

/-- What rust-analyzer knows of the types and the functions of a workspace. -/
structure TypeDatabase (hir : Hir) where
  Ty : Type
  Function : Type
  asAdt : Ty → Option (Adt hir)
  /-- With the generic arguments. A lifetime is no type. -/
  asAdtWithArgs : Ty → Option (Adt hir × List (Option Ty))
  isNever : Ty → Bool
  isTypeParam : Ty → Bool
  /-- A type as a crate displays it. -/
  display : Ty → hir.Crate → String
  debug : Ty → String
  adtModule : Adt hir → hir.Module
  adtName : Adt hir → hir.Name
  displayName : hir.Crate → Option String
  pathSegments : hir.Module → List hir.Name
  isNonExhaustive : hir.Enum → Bool
  functionModule : Function → hir.Module
  isAsync : Function → Bool
  asyncRetType : Function → Option Ty
  retType : Function → Ty
  /-- `FamousDefs` of a crate. -/
  coreResult : hir.Crate → Option hir.Enum
  coreOption : hir.Crate → Option hir.Enum
  /-- The two readings of a type agree on its definition. -/
  args_adt : ∀ ty adt args, asAdtWithArgs ty = some (adt, args) → asAdt ty = some adt
  /-- `!` has no definition. -/
  never_adt : ∀ ty, isNever ty = true → asAdt ty = none
  core_distinct : ∀ krate id, coreResult krate = some id → coreOption krate ≠ some id
  /-- `Result` has two parameters, and both are types. -/
  result_args : ∀ krate id ty, coreResult krate = some id → asAdt ty = some (.Enum id) →
    ∃ args error, asAdtWithArgs ty = some (.Enum id, args) ∧ args[1]? = some (some error)

/-- A use tree: its path, and whether it ends in a list or a star. -/
structure UseTree (Path : Type) where
  path : Option Path
  useTreeList : Bool
  starToken : Bool

/-- What rust-analyzer says of the nodes of one file. -/
structure FileSemantics (hir : Hir) (types : TypeDatabase hir) where
  isExpr : String → Bool
  isFn : String → Bool
  isUse : String → Bool
  isPath : String → Bool
  isUseTree : String → Bool
  toDef : SyntaxElement → Option types.Function
  typeOfExpr : SyntaxElement → Option types.Ty
  Path : Type
  useTree : SyntaxElement → Option (UseTree Path)
  pathOf : SyntaxElement → Path
  qualifier : Path → Option Path
  resolvePath : Path → Option (PathResolution hir)

/-- Shared state for resolving the targets of one file. -/
structure DecorateCtx (hir : Hir) where
  db : Database hir
  types : TypeDatabase hir
  sema : FileSemantics hir types
  syntax_ : SyntaxElement
  module : hir.Module

namespace DecorateCtx

variable {hir : Hir} [DecidableEq hir.Enum] (ctx : DecorateCtx hir)

def coreResult : Option hir.Enum := ctx.types.coreResult (ctx.db.krate ctx.module)

def coreOption : Option hir.Enum := ctx.types.coreOption (ctx.db.krate ctx.module)

def displayType (ty : ctx.types.Ty) (func : ctx.types.Function) : String :=
  ctx.types.display ty (ctx.db.krate (ctx.types.functionModule func))

/-- The type as the function around it displays it. -/
def displayIn (ty : ctx.types.Ty) (func : Option ctx.types.Function) : String :=
  match func with
  | some f => ctx.displayType ty f
  | none => ctx.types.debug ty

def effectiveReturnType (func : ctx.types.Function) : Option ctx.types.Ty × ReturnMode :=
  if ctx.types.isAsync func then
    match ctx.types.asyncRetType func with
    | some ty => (some ty, .Awaited)
    | none => (none, .Opaque)
  else (some (ctx.types.retType func), .Direct)

def isInstanceOf (ty : ctx.types.Ty) (target : Option hir.Enum) : Bool :=
  match target with
  | none => false
  | some target =>
    match ctx.types.asAdt ty with
    | some (.Enum actual) => actual = target
    | some (.Struct _) => false
    | some (.Union _) => false
    | none => false

def resultKind (ty : ctx.types.Ty) : ResultKind :=
  match ctx.isInstanceOf ty ctx.coreResult with
  | true => .Result
  | false => .Other

def optionKind (ty : ctx.types.Ty) : OptionKind :=
  match ctx.isInstanceOf ty ctx.coreOption with
  | true => .Option
  | false => .Other

def neverKind (ty : ctx.types.Ty) : NeverKind :=
  match ctx.types.isNever ty with
  | true => .Never
  | false => .Other

/-- The path of the type's definition, if it has one. -/
def typePath (ty : ctx.types.Ty) : Option TypePath :=
  (ctx.types.asAdt ty).bind fun adt =>
    let module := ctx.types.adtModule adt
    (ctx.types.displayName (ctx.db.krate module)).map fun krate =>
      { krate
        modules := (ctx.types.pathSegments module).map ctx.db.display
        name := ctx.db.display (ctx.types.adtName adt) }

def classifyError (ty : ctx.types.Ty) : ErrorType :=
  match ctx.typePath ty with
  | some path => .Named path
  | none => if ctx.types.isTypeParam ty then .Generic else .Unnamed

def resultErrorType (ty : ctx.types.Ty) : Option ErrorType :=
  ctx.coreResult.bind fun coreResult =>
    (ctx.types.asAdtWithArgs ty).bind fun found =>
      match found.1 with
      | .Enum actual =>
        if actual ≠ coreResult then none else found.2[1]?.join.map ctx.classifyError
      | .Struct _ => none
      | .Union _ => none

/-- The queries of `resolveExprType`. -/
def semantics : Semantics ctx.types.Ty ctx.types.Function ResolvedType where
  isExpr := ctx.sema.isExpr
  isFn := ctx.sema.isFn
  toDef := ctx.sema.toDef
  typeOfExpr := ctx.sema.typeOfExpr
  resolved ty func :=
    (((ResolvedType.new (ctx.displayIn ty func)).withResultKind (ctx.resultKind ty)).withOptionKind
      (ctx.optionKind ty)).withNeverKind (ctx.neverKind ty)

/-- The signature of the function that was found. -/
def signatureOf (func : ctx.types.Function) : FnSignature :=
  match ctx.effectiveReturnType func with
  | (none, returnMode) => { returnType := none, errorType := none, returnMode }
  | (some retType, returnMode) =>
    { returnType := some (((ResolvedType.new (ctx.displayType retType func)).withResultKind
        (ctx.resultKind retType)).withNeverKind (ctx.neverKind retType))
      errorType := ctx.resultErrorType retType
      returnMode }

def resolveFunction (range : TextRange) : Option FnSignature :=
  (findEnclosingFn ctx.semantics ctx.syntax_ range).map ctx.signatureOf

/-- The flags of an enum, as a function of some crate sees it. -/
def flagsOf (id : hir.Enum) (func : Option ctx.types.Function) : AdtFlags :=
  let krate := ctx.db.krate (ctx.types.adtModule (.Enum id))
  let localKrate := func.map fun f => ctx.db.krate (ctx.types.functionModule f)
  let isExternal := localKrate.any fun lk => lk ≠ krate
  let hasNonExhaustive := ctx.types.isNonExhaustive id
  { exhaustiveness :=
      match hasNonExhaustive, isExternal with
      | true, true => .NonExhaustive
      | true, false => .Exhaustive
      | false, true => .Exhaustive
      | false, false => .Exhaustive }

def resolveMatchScrutinee (scrutineeRange : TextRange) :
    Option (ResolvedType × Option AdtFlags) :=
  (findExprCovering ctx.semantics ctx.syntax_ scrutineeRange).bind fun expr =>
    (ctx.sema.typeOfExpr expr).map fun ty =>
      let adtKind :=
        match ctx.types.asAdt ty with
        | some (.Enum _) => AdtKind.Enum
        | some (.Struct _) => .Other
        | some (.Union _) => .Other
        | none => .Other
      let func := findEnclosingFn ctx.semantics ctx.syntax_ scrutineeRange
      let resolved := (ResolvedType.new (ctx.displayIn ty func)).withAdtKind adtKind
      let flags :=
        match ctx.types.asAdt ty with
        | some (.Enum id) => some (ctx.flagsOf id func)
        | some (.Struct _) => none
        | some (.Union _) => none
        | none => none
      (resolved, flags)

def importQualifier (tree : UseTree ctx.sema.Path) : Option ctx.sema.Path :=
  tree.path.bind fun path =>
    let pathIsTheQualifier := tree.useTreeList || tree.starToken
    match pathIsTheQualifier with
    | true => some path
    | false => ctx.sema.qualifier path

def importSourceOf (resolution : PathResolution hir) : ImportSource :=
  match resolution with
  | .Def (.Module _) => .Module
  | .Def (.Enum _) => .Enum
  | .Def (.EnumVariant _) => .Other
  | .Def (.Other _) => .Other
  | _ => .Other

def resolveImport (range : TextRange) : Option ImportSource :=
  ((coveringNode ctx.syntax_ range).bind fun ancestors =>
    ancestors.find? (SyntaxElement.casts ctx.sema.isUse)).bind fun useItem =>
      ((ctx.sema.useTree useItem).bind ctx.importQualifier).map fun qualifier =>
        match ctx.sema.resolvePath qualifier with
        | some resolution => importSourceOf resolution
        | none => .Unresolved

/-- The item that the path of this range names. -/
def importedItem (range : TextRange) : Option (ModuleDef hir) :=
  (coveringNode ctx.syntax_ range).bind fun ancestors =>
    match ancestors.dropWhile fun element => !element.casts ctx.sema.isPath with
    | [] => none
    | path :: above =>
      if path.textRange ≠ range then none
      else if !(path :: above).any (SyntaxElement.casts ctx.sema.isUseTree) then none
      else
        match ctx.sema.resolvePath (ctx.sema.pathOf path) with
        | some (.Def definition) => some definition
        | _ => none

def resolveReexports (modulePaths : Database.ModulePaths hir) (range : TextRange) :
    Option Reexports × Database.ModulePaths hir :=
  match ctx.importedItem range with
  | none => (none, modulePaths)
  | some definition =>
    let found := ctx.db.publicPaths ctx.module modulePaths definition
    (some { paths := found.1 }, found.2)

def answers : Answers Value (Database.ModulePaths hir) where
  resolveFunction := ctx.resolveFunction
  resolveMatchScrutinee := ctx.resolveMatchScrutinee
  resolveExprType := resolveExprType ctx.semantics ctx.syntax_
  resolveImport := ctx.resolveImport
  resolveReexports := ctx.resolveReexports
  modulePaths := .default

/-! ## What is recorded for a target -/

variable (KEY : RustDecoration → DecorationKey)

/-- One decoration of the provider. -/
def entry (nodeId : Nat) (T : RustDecoration) (value : Value T) :
    Entry (rustDecorations KEY Value) :=
  Entry.new nodeId T value

/-- What is recorded for a target, with no path looked up before. -/
def entriesOf (target : Target) : List (Entry (rustDecorations KEY Value)) :=
  match target with
  | .Function nodeId range =>
    ((ctx.resolveFunction range).map (entry KEY nodeId .FnSignature)).toList
  | .MatchScrutinee scrutineeRange scrutineeNodeId =>
    match ctx.resolveMatchScrutinee scrutineeRange with
    | none => []
    | some (ty, flags) =>
      entry KEY scrutineeNodeId .ResolvedType ty ::
        (flags.map (entry KEY scrutineeNodeId .AdtFlags)).toList
  | .IfElse branchRange elseNodeId =>
    ((resolveExprType ctx.semantics ctx.syntax_ branchRange).map
      (entry KEY elseNodeId .ResolvedType)).toList
  | .TryExpr operandRange operandNodeId =>
    ((resolveExprType ctx.semantics ctx.syntax_ operandRange).map
      (entry KEY operandNodeId .ResolvedType)).toList
  | .Import nodeId range => ((ctx.resolveImport range).map (entry KEY nodeId .ImportSource)).toList
  | .ImportPath nodeId range =>
    ((ctx.resolveReexports .default range).1.map (entry KEY nodeId .Reexports)).toList

end DecorateCtx

section Run

variable {hir : Hir} [DecidableEq hir.Enum] {ctx : DecorateCtx hir}
  {KEY : RustDecoration → DecorationKey}

omit [DecidableEq hir.Enum] in
theorem resolveReexports_valid {cache : Database.ModulePaths hir}
    (hcache : cache.Valid ctx.db ctx.module) (range : TextRange) :
    (ctx.resolveReexports cache range).1 = (ctx.resolveReexports .default range).1 ∧
      (ctx.resolveReexports cache range).2.Valid ctx.db ctx.module := by
  unfold DecorateCtx.resolveReexports
  cases ctx.importedItem range with
  | none => exact ⟨rfl, hcache⟩
  | some definition =>
    refine ⟨?_, Database.publicPaths_valid hcache definition⟩
    exact congrArg (fun paths => some (Reexports.mk paths))
      (Database.publicPaths_of_valid hcache (Database.ModulePaths.valid_default _) definition)

/-- One target: what it records is the same after any other questions. -/
theorem entries_resolveTarget
    (state : Database.ModulePaths hir × DecorationMap (rustDecorations KEY Value))
    (hcache : state.1.Valid ctx.db ctx.module) (target : Target) :
    (resolveTarget ctx.answers state target).1.Valid ctx.db ctx.module ∧
      (resolveTarget ctx.answers state target).2.entries =
        state.2.entries ++ ctx.entriesOf KEY target := by
  cases target with
  | Function nodeId range => exact ⟨hcache, DecorationMap.entries_insertAnswer _ _ _ _⟩
  | MatchScrutinee scrutineeRange scrutineeNodeId =>
    unfold resolveTarget DecorateCtx.entriesOf
    dsimp only [DecorateCtx.answers]
    cases ctx.resolveMatchScrutinee scrutineeRange with
    | none => exact ⟨hcache, (List.append_nil _).symm⟩
    | some found =>
      refine ⟨hcache, (DecorationMap.entries_insertAnswer _ _ _ _).trans ?_⟩
      exact List.append_assoc _ _ _
  | IfElse branchRange elseNodeId => exact ⟨hcache, DecorationMap.entries_insertAnswer _ _ _ _⟩
  | TryExpr operandRange operandNodeId => exact ⟨hcache, DecorationMap.entries_insertAnswer _ _ _ _⟩
  | Import nodeId range => exact ⟨hcache, DecorationMap.entries_insertAnswer _ _ _ _⟩
  | ImportPath nodeId range =>
    obtain ⟨hanswer, hvalid⟩ := resolveReexports_valid hcache range
    refine ⟨hvalid, (DecorationMap.entries_insertAnswer _ _ _ _).trans ?_⟩
    show _ ++ ((ctx.resolveReexports state.1 range).1.map _).toList = _
    rw [hanswer]
    rfl

/-- The run over the targets records for each what it would record for it alone. -/
theorem entries_foldl (targets : List Target)
    (state : Database.ModulePaths hir × DecorationMap (rustDecorations KEY Value))
    (hcache : state.1.Valid ctx.db ctx.module) :
    (targets.foldl (resolveTarget ctx.answers) state).2.entries =
      state.2.entries ++ targets.flatMap (ctx.entriesOf KEY) := by
  induction targets generalizing state with
  | nil => exact (List.append_nil _).symm
  | cons target rest ih =>
    obtain ⟨hvalid, hentries⟩ := entries_resolveTarget state hcache target
    rw [List.foldl_cons, ih _ hvalid, hentries, List.append_assoc, List.flatMap_cons]

theorem entries_resolveTargets (targets : List Target) :
    (resolveTargets ctx.answers targets : DecorationMap (rustDecorations KEY Value)).entries =
      targets.flatMap (ctx.entriesOf KEY) :=
  entries_foldl targets _ (Database.ModulePaths.valid_default _)

theorem entriesOf_made (target : Target) : ∀ e ∈ ctx.entriesOf KEY target, e.Made := by
  have hanswer : ∀ (nodeId : Nat) (T : RustDecoration) (answer : Option (Value T)),
      ∀ e ∈ (answer.map (DecorateCtx.entry KEY nodeId T)).toList, e.Made := by
    intro nodeId T answer e he
    obtain ⟨value, _, rfl⟩ := Option.map_eq_some_iff.mp (Option.mem_toList.mp he)
    rfl
  cases target with
  | MatchScrutinee scrutineeRange scrutineeNodeId =>
    unfold DecorateCtx.entriesOf
    dsimp only
    split
    · exact fun e he => absurd he List.not_mem_nil
    · intro e he
      rcases List.mem_cons.mp he with rfl | he
      · rfl
      · exact hanswer _ _ _ e he
  | _ => exact hanswer _ _ _

theorem wellSealed_decorate {fields : FieldNames} {t : SyntaxTree} :
    (decorate fields ctx.answers t : DecorationMap (rustDecorations KEY Value)).WellSealed := by
  have hrecords : Records (D := rustDecorations KEY Value) Target.marks
      (resolveTarget ctx.answers) := records_resolveTarget _
  exact foldl_wellSealed hrecords _ _ (DecorationMap.wellSealed_of_none rfl)

/-- What is read from a node was recorded for one of the targets. -/
theorem get_decorate {fields : FieldNames} (hkeys : Function.Injective KEY) {t : SyntaxTree}
    (hids : t.ids.Nodup) {T : RustDecoration} {nodeId : Nat} {value : Value T} :
    (decorate fields ctx.answers t : DecorationMap (rustDecorations KEY Value)).get T nodeId =
        some value ↔
      ∃ target ∈ collectTargets fields t [],
        DecorateCtx.entry KEY nodeId T value ∈ ctx.entriesOf KEY target := by
  have hentries : (resolveTargets ctx.answers (collectTargets fields t []) :
      DecorationMap (rustDecorations KEY Value)).entries = _ := entries_resolveTargets _
  rw [decorate, DecorationMap.get_iff, hentries, List.mem_flatMap]
  · rfl
  · exact wellSealed_decorate
  · exact hkeys
  · rw [hentries]
    intro e he
    obtain ⟨target, _, he⟩ := List.mem_flatMap.mp he
    exact entriesOf_made target e he
  · exact oneOfEach_decorate _ hids

end Run

end Stiles.RustProvider
