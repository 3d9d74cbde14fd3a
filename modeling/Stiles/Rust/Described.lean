import Stiles.Rust.Decorations

/-
  What a rule may rely on when it reads the decorations of the Rust provider.

  `Describes` is what a signature says of its function, and `OneKind` what a type says of itself. A
  type records the kinds that its place asks about, and `Other` for the rest: `is_option` of a return
  type is always false.

  `decorations_right`: a node holds what its one target asks for. A signature is on each function
  and describes it, and flags stand beside exactly the types that are enums.
-/

namespace Stiles.RustProvider

variable {hir : Hir} [DecidableEq hir.Enum]

/-! ## Signatures -/

namespace DecorateCtx

variable {ctx : DecorateCtx hir}

theorem isInstanceOf_iff {ty : ctx.types.Ty} {target : Option hir.Enum} :
    ctx.isInstanceOf ty target = true ↔
      ∃ id, target = some id ∧ ctx.types.asAdt ty = some (.Enum id) := by
  unfold isInstanceOf
  cases target with
  | none => simp
  | some id =>
    cases ctx.types.asAdt ty with
    | none => simp
    | some adt => cases adt <;> simp [eq_comm]

theorem isResult_iff {ty : ctx.types.Ty} :
    ctx.resultKind ty = .Result ↔ ctx.isInstanceOf ty ctx.coreResult = true := by
  unfold resultKind
  cases ctx.isInstanceOf ty ctx.coreResult <;> simp

theorem isOption_iff {ty : ctx.types.Ty} :
    ctx.optionKind ty = .Option ↔ ctx.isInstanceOf ty ctx.coreOption = true := by
  unfold optionKind
  cases ctx.isInstanceOf ty ctx.coreOption <;> simp

omit [DecidableEq hir.Enum] in
theorem isNever_iff {ty : ctx.types.Ty} :
    ctx.neverKind ty = .Never ↔ ctx.types.isNever ty = true := by
  unfold neverKind
  cases ctx.types.isNever ty <;> simp

/-- A type is a `Result` with this error. -/
def ResultOf (ctx : DecorateCtx hir) (ty error : ctx.types.Ty) : Prop :=
  ∃ id args, ctx.coreResult = some id ∧ ctx.types.asAdtWithArgs ty = some (.Enum id, args) ∧
    args[1]? = some (some error)

/-- An error is reported for exactly the types that are a `Result`. -/
theorem resultErrorType_iff {ty : ctx.types.Ty} {error : ErrorType} :
    ctx.resultErrorType ty = some error ↔
      ∃ e, ctx.ResultOf ty e ∧ ctx.classifyError e = error := by
  unfold resultErrorType ResultOf
  constructor
  · intro h
    obtain ⟨id, hid, hfound⟩ := Option.bind_eq_some_iff.mp h
    obtain ⟨⟨adt, args⟩, hadt, herror⟩ := Option.bind_eq_some_iff.mp hfound
    cases adt with
    | Enum actual =>
      by_cases hsame : actual = id
      · rw [hsame] at hadt
        dsimp only at herror
        rw [if_neg (not_not.mpr hsame)] at herror
        obtain ⟨e, he, hclass⟩ := Option.map_eq_some_iff.mp herror
        exact ⟨e, ⟨id, args, hid, hadt, Option.join_eq_some_iff.mp he⟩, hclass⟩
      · dsimp only at herror
        rw [if_pos hsame] at herror
        cases herror
    | Struct id => cases herror
    | Union id => cases herror
  · intro h
    obtain ⟨e, ⟨id, args, hid, hadt, hargs⟩, hclass⟩ := h
    rw [hid, Option.bind_some, hadt, Option.bind_some]
    dsimp only
    rw [if_neg (not_not.mpr rfl), hargs]
    exact congrArg some hclass

/-- A `Result` has an error. -/
theorem resultOf_iff {ty : ctx.types.Ty} :
    (∃ e, ctx.ResultOf ty e) ↔ ctx.resultKind ty = .Result := by
  rw [isResult_iff, isInstanceOf_iff]
  constructor
  · intro h
    obtain ⟨e, id, args, hid, hadt, _⟩ := h
    exact ⟨id, hid, ctx.types.args_adt _ _ _ hadt⟩
  · intro h
    obtain ⟨id, hid, hadt⟩ := h
    obtain ⟨args, e, hargs, he⟩ := ctx.types.result_args _ _ _ hid hadt
    exact ⟨e, id, args, hid, hargs, he⟩

omit [DecidableEq hir.Enum] in
/-- An error type is the one that a path names if its definition is at that path. -/
theorem classifyError_is {ty : ctx.types.Ty} {path : TypePathRef} :
    (ctx.classifyError ty).is path = true ↔
      ctx.typePath ty = some ⟨path.krate, path.modules, path.name⟩ := by
  unfold classifyError
  cases ctx.typePath ty with
  | none =>
    dsimp only
    split <;> simp [ErrorType.is]
  | some actual =>
    dsimp only [ErrorType.is]
    rw [TypePath.eq_iff, Option.some.injEq]

/-- What a signature says of its function. -/
structure Describes (ctx : DecorateCtx hir) (func : ctx.types.Function) (sig : FnSignature) :
    Prop where
  direct : sig.returnMode = .Direct ↔ ctx.types.isAsync func = false
  opaque_ : sig.returnType = none ↔ sig.returnMode = .Opaque
  result : sig.errorType ≠ none ↔ ∃ ty, sig.returnType = some ty ∧ ty.isResult = true
  /-- A rule that compares the error with a path asks where the error is defined. -/
  error : ∀ path : TypePathRef, (∃ e, sig.errorType = some e ∧ e.is path = true) ↔
    ∃ ty e, (ctx.effectiveReturnType func).1 = some ty ∧ ctx.ResultOf ty e ∧
      ctx.typePath e = some ⟨path.krate, path.modules, path.name⟩
  unasked : ∀ ty, sig.returnType = some ty → ty.isEnum = false ∧ ty.isOption = false

omit [DecidableEq hir.Enum] in
theorem effectiveReturnType_mode (ctx : DecorateCtx hir) (func : ctx.types.Function) :
    ((ctx.effectiveReturnType func).2 = .Direct ↔ ctx.types.isAsync func = false) ∧
      ((ctx.effectiveReturnType func).1 = none ↔ (ctx.effectiveReturnType func).2 = .Opaque) := by
  unfold effectiveReturnType
  cases ctx.types.isAsync func with
  | false => simp
  | true => cases ctx.types.asyncRetType func <;> simp

theorem describes_signatureOf (ctx : DecorateCtx hir) (func : ctx.types.Function) :
    ctx.Describes func (ctx.signatureOf func) := by
  unfold signatureOf
  have hmode := effectiveReturnType_mode ctx func
  generalize hfound : ctx.effectiveReturnType func = found at hmode
  obtain ⟨retType, returnMode⟩ := found
  cases retType with
  | none =>
    exact
      { direct := hmode.1
        opaque_ := ⟨fun _ => hmode.2.mp rfl, fun _ => rfl⟩
        result := ⟨fun h => absurd rfl h, nofun⟩
        error := by
          intro path
          rw [hfound]
          exact ⟨nofun, nofun⟩
        unasked := nofun }
  | some ty =>
    have hkind : ∀ resolved : ResolvedType, resolved.resultKind = ctx.resultKind ty →
        (resolved.isResult = true ↔ ctx.resultKind ty = .Result) := by
      intro resolved hresolved
      unfold ResolvedType.isResult
      rw [hresolved]
      cases ctx.resultKind ty <;> simp
    exact
      { direct := hmode.1
        opaque_ := ⟨nofun, fun h => absurd (hmode.2.mpr h) nofun⟩
        result := by
          rw [← Option.isSome_iff_ne_none, Option.isSome_iff_exists]
          constructor
          · intro h
            obtain ⟨error, herror⟩ := h
            obtain ⟨e, he, _⟩ := resultErrorType_iff.mp herror
            exact ⟨_, rfl, (hkind _ rfl).mpr (resultOf_iff.mp ⟨e, he⟩)⟩
          · intro h
            obtain ⟨_, hsome, hresult⟩ := h
            obtain rfl := Option.some.inj hsome
            obtain ⟨e, he⟩ := resultOf_iff.mpr ((hkind _ rfl).mp hresult)
            exact ⟨_, resultErrorType_iff.mpr ⟨e, he, rfl⟩⟩
        error := by
          intro path
          rw [hfound]
          constructor
          · intro h
            obtain ⟨_, herror, his⟩ := h
            obtain ⟨e, he, rfl⟩ := resultErrorType_iff.mp herror
            exact ⟨ty, e, rfl, he, classifyError_is.mp his⟩
          · intro h
            obtain ⟨_, e, hsome, he, hpath⟩ := h
            obtain rfl := Option.some.inj hsome
            exact ⟨_, resultErrorType_iff.mpr ⟨e, he, rfl⟩, classifyError_is.mpr hpath⟩
        unasked := by
          intro resolved hresolved
          obtain rfl := Option.some.inj hresolved
          exact ⟨rfl, rfl⟩ }

end DecorateCtx

/-! ## Types -/

/-- A type says at most one thing of itself. -/
def ResolvedType.OneKind (ty : ResolvedType) : Prop :=
  [ty.isEnum, ty.isNever, ty.isResult, ty.isOption].count true ≤ 1

variable {ctx : DecorateCtx hir}

/-- A type that is asked about as an expression is no enum for a rule, and one of the other kinds
    at most. -/
theorem oneKind_resolved (ty : ctx.types.Ty) (func : Option ctx.types.Function) :
    (ctx.semantics.resolved ty func).isEnum = false ∧
      (ctx.semantics.resolved ty func).OneKind := by
  refine ⟨rfl, ?_⟩
  have hnever : ctx.neverKind ty = .Never →
      ctx.resultKind ty ≠ .Result ∧ ctx.optionKind ty ≠ .Option := by
    intro h
    have hadt := ctx.types.never_adt ty (DecorateCtx.isNever_iff.mp h)
    have hno : ∀ target, ctx.isInstanceOf ty target ≠ true := by
      intro target hinstance
      obtain ⟨id, _, hid⟩ := DecorateCtx.isInstanceOf_iff.mp hinstance
      rw [hadt] at hid
      cases hid
    exact ⟨fun hresult => hno _ (DecorateCtx.isResult_iff.mp hresult),
      fun hoption => hno _ (DecorateCtx.isOption_iff.mp hoption)⟩
  have hresult : ctx.resultKind ty = .Result → ctx.optionKind ty ≠ .Option := by
    intro h hoption
    obtain ⟨id, hcore, hid⟩ := DecorateCtx.isInstanceOf_iff.mp (DecorateCtx.isResult_iff.mp h)
    obtain ⟨other, hcore', hid'⟩ :=
      DecorateCtx.isInstanceOf_iff.mp (DecorateCtx.isOption_iff.mp hoption)
    rw [hid, Option.some.injEq, Adt.Enum.injEq] at hid'
    rw [← hid'] at hcore'
    exact ctx.types.core_distinct _ _ hcore hcore'
  show [false, ResolvedType.isNever _, ResolvedType.isResult _, ResolvedType.isOption _].count true
    ≤ 1
  unfold ResolvedType.isNever ResolvedType.isResult ResolvedType.isOption
  dsimp only [DecorateCtx.semantics, ResolvedType.withNeverKind, ResolvedType.withOptionKind,
    ResolvedType.withResultKind, ResolvedType.new]
  cases hn : ctx.neverKind ty with
  | Never =>
    obtain ⟨hnotResult, hnotOption⟩ := hnever hn
    cases hr : ctx.resultKind ty with
    | Result => exact absurd hr hnotResult
    | Other =>
      cases ho : ctx.optionKind ty with
      | Option => exact absurd ho hnotOption
      | Other => decide
  | Other =>
    cases hr : ctx.resultKind ty with
    | Result =>
      cases ho : ctx.optionKind ty with
      | Option => exact absurd ho (hresult hr)
      | Other => decide
    | Other => cases ctx.optionKind ty <;> decide

theorem oneKind_withAdtKind (display : String) (kind : AdtKind) :
    ((ResolvedType.new display).withAdtKind kind).OneKind ∧
      (((ResolvedType.new display).withAdtKind kind).isEnum = true ↔ kind = .Enum) := by
  cases kind with
  | Enum => exact ⟨Nat.le_refl 1, ⟨fun _ => rfl, fun _ => rfl⟩⟩
  | Other => exact ⟨Nat.zero_le 1, ⟨nofun, nofun⟩⟩

/-- The type of a scrutinee says whether it is an enum and nothing else, and has flags if it is. -/
theorem scrutinee_kind {range : TextRange} {ty : ResolvedType} {flags : Option AdtFlags}
    (h : ctx.resolveMatchScrutinee range = some (ty, flags)) :
    ty.OneKind ∧ (flags.isSome = true ↔ ty.isEnum = true) := by
  obtain ⟨expr, _, htype⟩ := Option.bind_eq_some_iff.mp h
  obtain ⟨found, _, hfound⟩ := Option.map_eq_some_iff.mp htype
  obtain ⟨rfl, rfl⟩ := Prod.mk.inj hfound
  obtain ⟨hone, henum⟩ := oneKind_withAdtKind
    (ctx.displayIn found (findEnclosingFn ctx.semantics ctx.syntax_ range)) _
  refine ⟨hone, ?_⟩
  rw [henum]
  cases ctx.types.asAdt found with
  | none => simp
  | some adt => cases adt <;> simp

/-! ## Targets -/

/-- A node that declares a function, with or without a body. -/
def IsFunction (node : SyntaxTree) : Prop :=
  node.kind = "function_item" ∨ node.kind = "function_signature_item"

theorem mem_pushRange {node : SyntaxTree} {make : TextRange → Target} {target : Target} :
    target ∈ pushRange node make [] ↔ ∃ range, textRangeOf node = some range ∧ target = make range := by
  unfold pushRange
  cases textRangeOf node <;> simp

/-- The function targets of a tree are its functions with a range of 32 bits. -/
theorem mem_function_targets {fields : FieldNames} {t : SyntaxTree} {nodeId : Nat}
    {range : TextRange} :
    Target.Function nodeId range ∈ collectTargets fields t [] ↔
      ∃ node ∈ t.visited, IsFunction node ∧ node.id = nodeId ∧ textRangeOf node = some range := by
  rw [collectTargets_eq, List.nil_append, List.mem_flatMap]
  refine exists_congr fun node => and_congr_right fun _ => ?_
  have hother : ∀ (child : SyntaxTree) (make : TextRange → Target),
      (∀ range, (make range).marks.all (fun mark => mark.2 ≠ .FnSignature) = true) →
        Target.Function nodeId range ∉ pushRange child make [] := by
    intro child make hmake hmem
    obtain ⟨found, _, heq⟩ := mem_pushRange.mp hmem
    have hmarks := hmake found
    rw [← heq] at hmarks
    cases hmarks
  have hpaths : ∀ argument, Target.Function nodeId range ∉ collectImportPaths fields argument [] := by
    intro argument hmem
    have hmarks : [(nodeId, RustDecoration.FnSignature)] = _ := isImportPath_of_collect argument _ hmem
    cases hmarks
  have hown : Target.Function nodeId range ∈ pushRange node (.Function node.id) [] ↔
      node.id = nodeId ∧ textRangeOf node = some range := by
    rw [mem_pushRange]
    constructor
    · intro h
      obtain ⟨found, hfound, heq⟩ := h
      obtain ⟨rfl, rfl⟩ := Target.Function.inj heq
      exact ⟨rfl, hfound⟩
    · intro h
      exact ⟨range, h.2, by rw [h.1]⟩
  have hnothing : ∀ {own : List Target}, ¬IsFunction node → Target.Function nodeId range ∉ own →
      (Target.Function nodeId range ∈ own ↔
        IsFunction node ∧ node.id = nodeId ∧ textRangeOf node = some range) :=
    fun hnode hmem => ⟨fun h => absurd h hmem, fun h => absurd h.1 hnode⟩
  have hkinds : ∀ {kind : String}, node.kind = kind → kind ≠ "function_item" →
      kind ≠ "function_signature_item" → ¬IsFunction node := by
    intro kind hkind hitem hsignature hnode
    rcases hnode with h | h
    · exact hitem (hkind.symm.trans h)
    · exact hsignature (hkind.symm.trans h)
  unfold collectOwnTargets
  split
  · rename_i hkind
    rw [hown, and_iff_right (show IsFunction node from Or.inl hkind)]
  · rename_i hkind
    rw [hown, and_iff_right (show IsFunction node from Or.inr hkind)]
  · rename_i hkind
    refine hnothing (hkinds hkind (by decide) (by decide)) ?_
    split
    · exact hother _ _ fun _ => rfl
    · exact List.not_mem_nil
  · rename_i hkind
    refine hnothing (hkinds hkind (by decide) (by decide)) ?_
    split
    · exact hother _ _ fun _ => rfl
    · exact List.not_mem_nil
  · rename_i hkind
    refine hnothing (hkinds hkind (by decide) (by decide)) ?_
    split
    · exact hother _ _ fun _ => rfl
    · exact List.not_mem_nil
  · rename_i hkind
    refine hnothing (hkinds hkind (by decide) (by decide)) ?_
    split
    · rename_i argument _
      dsimp only
      rw [collectImportPaths_append, List.mem_append]
      exact not_or.mpr ⟨hother _ _ fun _ => rfl, hpaths argument⟩
    · exact hother _ _ fun _ => rfl
  · rename_i hitem hsignature _ _ _ _
    exact hnothing (fun h => h.elim hitem hsignature) List.not_mem_nil

/-! ## The map -/

section Map

variable {KEY : RustDecoration → DecorationKey}

/-- What is recorded of a type, by the targets that record it. -/
theorem mem_entriesOf {target : Target} {nodeId : Nat} {T : RustDecoration} {value : Value T}
    (h : DecorateCtx.entry KEY nodeId T value ∈ ctx.entriesOf KEY target) :
    (nodeId, T) ∈ target.marks := by
  have hanswer : ∀ {other : Nat} {T' : RustDecoration} {answer : Option (Value T')},
      DecorateCtx.entry KEY nodeId T value ∈
        (answer.map (DecorateCtx.entry KEY other T')).toList → (nodeId, T) = (other, T') := by
    intro other T' answer he
    obtain ⟨found, _, heq⟩ := Option.map_eq_some_iff.mp (Option.mem_toList.mp he)
    exact (congrArg Entry.mark heq).symm
  cases target with
  | MatchScrutinee scrutineeRange scrutineeNodeId =>
    unfold DecorateCtx.entriesOf at h
    dsimp only at h
    split at h
    · cases h
    · rcases List.mem_cons.mp h with hty | hflags
      · exact List.mem_cons.mpr (Or.inl (congrArg Entry.mark hty))
      · rw [hanswer hflags]
        exact List.mem_cons_of_mem _ List.mem_cons_self
  | _ => exact List.mem_singleton.mpr (hanswer h)

theorem entry_inj {nodeId : Nat} {T : RustDecoration} {value other : Value T}
    (h : DecorateCtx.entry KEY nodeId T value = DecorateCtx.entry KEY nodeId T other) :
    value = other :=
  eq_of_heq (Sigma.mk.inj (congrArg Entry.value h)).2

theorem mem_answer {nodeId : Nat} {T : RustDecoration} {value : Value T}
    {answer : Option (Value T)} :
    DecorateCtx.entry KEY nodeId T value ∈
      (answer.map (DecorateCtx.entry KEY nodeId T)).toList ↔ answer = some value := by
  rw [Option.mem_toList, Option.map_eq_some_iff]
  constructor
  · intro h
    obtain ⟨found, hfound, heq⟩ := h
    rw [hfound, entry_inj heq]
  · exact fun h => ⟨value, h, rfl⟩

/-- The signatures come from the function targets. -/
theorem mem_signature {target : Target} {nodeId : Nat} {sig : FnSignature} :
    DecorateCtx.entry KEY nodeId .FnSignature sig ∈ ctx.entriesOf KEY target ↔
      ∃ range, target = .Function nodeId range ∧ ctx.resolveFunction range = some sig := by
  constructor
  · intro h
    have hmark := mem_entriesOf h
    cases target with
    | Function other range =>
      obtain ⟨rfl, -⟩ := Prod.mk.inj (List.mem_singleton.mp hmark)
      exact ⟨range, rfl, mem_answer.mp h⟩
    | _ => simp [Target.marks] at hmark
  · intro h
    obtain ⟨range, rfl, hsig⟩ := h
    exact mem_answer.mpr hsig

/-- The flags come from the scrutinees, and so do the types beside them. -/
theorem mem_flags {target : Target} {nodeId : Nat} {flags : AdtFlags} :
    DecorateCtx.entry KEY nodeId .AdtFlags flags ∈ ctx.entriesOf KEY target ↔
      ∃ range ty, target = .MatchScrutinee range nodeId ∧
        ctx.resolveMatchScrutinee range = some (ty, some flags) := by
  constructor
  · intro h
    have hmark := mem_entriesOf h
    cases target with
    | MatchScrutinee range other =>
      have hnode : nodeId = other := by simpa [Target.marks] using hmark
      subst hnode
      unfold DecorateCtx.entriesOf at h
      dsimp only at h
      split at h
      · cases h
      · rename_i ty found hfound
        rcases List.mem_cons.mp h with hty | hflags
        · exact absurd (congrArg (fun e => e.value.1) hty) nofun
        · exact ⟨range, ty, rfl, by rw [hfound, mem_answer.mp hflags]⟩
    | _ => simp [Target.marks] at hmark
  · intro h
    obtain ⟨range, ty, rfl, hfound⟩ := h
    unfold DecorateCtx.entriesOf
    dsimp only
    rw [hfound]
    exact List.mem_cons_of_mem _ (mem_answer.mpr rfl)

/-- The types come from scrutinees, `else` clauses and operands. -/
theorem mem_type {target : Target} {nodeId : Nat} {ty : ResolvedType} :
    DecorateCtx.entry KEY nodeId .ResolvedType ty ∈ ctx.entriesOf KEY target ↔
      (∃ range flags, target = .MatchScrutinee range nodeId ∧
        ctx.resolveMatchScrutinee range = some (ty, flags)) ∨
      ∃ range, (target = .IfElse range nodeId ∨ target = .TryExpr range nodeId) ∧
        resolveExprType ctx.semantics ctx.syntax_ range = some ty := by
  constructor
  · intro h
    have hmark := mem_entriesOf h
    cases target with
    | MatchScrutinee range other =>
      have hnode : nodeId = other := by simpa [Target.marks] using hmark
      subst hnode
      unfold DecorateCtx.entriesOf at h
      dsimp only at h
      split at h
      · cases h
      · rename_i found flags hfound
        rcases List.mem_cons.mp h with hty | hflags
        · exact Or.inl ⟨range, flags, rfl, by rw [hfound, entry_inj hty]⟩
        · obtain ⟨_, _, heq⟩ := Option.map_eq_some_iff.mp (Option.mem_toList.mp hflags)
          exact absurd (congrArg (fun e => e.value.1) heq) nofun
    | IfElse range other =>
      obtain ⟨rfl, -⟩ := Prod.mk.inj (List.mem_singleton.mp hmark)
      exact Or.inr ⟨range, Or.inl rfl, mem_answer.mp h⟩
    | TryExpr range other =>
      obtain ⟨rfl, -⟩ := Prod.mk.inj (List.mem_singleton.mp hmark)
      exact Or.inr ⟨range, Or.inr rfl, mem_answer.mp h⟩
    | _ => simp [Target.marks] at hmark
  · intro h
    rcases h with ⟨range, flags, rfl, hfound⟩ | ⟨range, rfl | rfl, hfound⟩
    · unfold DecorateCtx.entriesOf
      dsimp only
      rw [hfound]
      exact List.mem_cons_self
    · exact mem_answer.mpr hfound
    · exact mem_answer.mpr hfound

theorem resolveExprType_kind {range : TextRange} {ty : ResolvedType}
    (h : resolveExprType ctx.semantics ctx.syntax_ range = some ty) :
    ty.isEnum = false ∧ ty.OneKind := by
  obtain ⟨expr, _, htype⟩ := Option.bind_eq_some_iff.mp h
  obtain ⟨found, _, rfl⟩ := Option.map_eq_some_iff.mp htype
  exact oneKind_resolved found _

/-- A node holds what its one target asks rust-analyzer for, and nothing else. A function has a
    signature if its range fits and rust-analyzer knows it, and the signature describes it: its
    error is there exactly for a `Result`, and it is compared by where it is defined. A type says at
    most one thing of itself, and flags stand beside exactly the types that say they are enums. -/
theorem decorations_right (fields : FieldNames) (ctx : DecorateCtx hir)
    (hkeys : Function.Injective KEY) {t : SyntaxTree} (hids : t.ids.Nodup) :
    let map : DecorationMap (rustDecorations KEY Value) := decorate fields ctx.answers t
    (∀ (T : RustDecoration) (nodeId : Nat) (value : Value T), map.get T nodeId = some value ↔
      ∃ target ∈ collectTargets fields t [],
        DecorateCtx.entry KEY nodeId T value ∈ ctx.entriesOf KEY target) ∧
    (∀ (nodeId : Nat) (sig : FnSignature), map.get .FnSignature nodeId = some sig ↔
      ∃ node ∈ t.visited, IsFunction node ∧ node.id = nodeId ∧ ∃ range func,
        textRangeOf node = some range ∧
        findEnclosingFn ctx.semantics ctx.syntax_ range = some func ∧ ctx.signatureOf func = sig) ∧
    (∀ func, ctx.Describes func (ctx.signatureOf func)) ∧
    (∀ (nodeId : Nat) (ty : ResolvedType), map.get .ResolvedType nodeId = some ty → ty.OneKind) ∧
    ∀ nodeId : Nat, (∃ flags : AdtFlags, map.get .AdtFlags nodeId = some flags) ↔
      ∃ ty : ResolvedType, map.get .ResolvedType nodeId = some ty ∧ ty.isEnum = true := by
  intro map
  have hget : ∀ (T : RustDecoration) (nodeId : Nat) (value : Value T),
      map.get T nodeId = some value ↔ ∃ target ∈ collectTargets fields t [],
        DecorateCtx.entry KEY nodeId T value ∈ ctx.entriesOf KEY target :=
    fun _ _ _ => get_decorate hkeys hids
  refine ⟨hget, fun nodeId sig => ?_, DecorateCtx.describes_signatureOf ctx, fun nodeId ty hty => ?_,
    fun nodeId => ⟨fun h => ?_, fun h => ?_⟩⟩
  · rw [hget]
    constructor
    · intro h
      obtain ⟨target, htarget, hrecorded⟩ := h
      obtain ⟨range, rfl, hsig⟩ := mem_signature.mp hrecorded
      obtain ⟨node, hnode, hfunction, hid, hrange⟩ := mem_function_targets.mp htarget
      obtain ⟨func, hfunc, rfl⟩ := Option.map_eq_some_iff.mp hsig
      exact ⟨node, hnode, hfunction, hid, range, func, hrange, hfunc, rfl⟩
    · intro h
      obtain ⟨node, hnode, hfunction, hid, range, func, hrange, hfunc, rfl⟩ := h
      refine ⟨.Function nodeId range,
        mem_function_targets.mpr ⟨node, hnode, hfunction, hid, hrange⟩, ?_⟩
      exact mem_signature.mpr ⟨range, rfl, Option.map_eq_some_iff.mpr ⟨func, hfunc, rfl⟩⟩
  · obtain ⟨target, _, hty⟩ := (hget _ _ _).mp hty
    rcases mem_type.mp hty with ⟨range, flags, _, hfound⟩ | ⟨range, _, hfound⟩
    · exact (scrutinee_kind hfound).1
    · exact (resolveExprType_kind hfound).2
  · obtain ⟨flags, hflags⟩ := h
    obtain ⟨target, htarget, hflags⟩ := (hget _ _ _).mp hflags
    obtain ⟨range, ty, htarget', hfound⟩ := mem_flags.mp hflags
    refine ⟨ty, (hget _ _ _).mpr ⟨target, htarget, ?_⟩, (scrutinee_kind hfound).2.mp rfl⟩
    exact mem_type.mpr (Or.inl ⟨range, some flags, htarget', hfound⟩)
  · obtain ⟨ty, hty, henum⟩ := h
    obtain ⟨target, htarget, hty⟩ := (hget _ _ _).mp hty
    rcases mem_type.mp hty with ⟨range, flags, htarget', hfound⟩ | ⟨range, _, hfound⟩
    · have hsome := (scrutinee_kind hfound).2.mpr henum
      obtain ⟨flags', rfl⟩ := Option.isSome_iff_exists.mp hsome
      exact ⟨flags', (hget _ _ _).mpr
        ⟨target, htarget, mem_flags.mpr ⟨range, ty, htarget', hfound⟩⟩⟩
    · rw [(resolveExprType_kind hfound).1] at henum
      cases henum

end Map

/-! ## A function that fails -/

inductive MainCrate where
  | app
  | core
  | anyhow
deriving DecidableEq

inductive MainTy where
  | fallible
  | error
deriving DecidableEq

/-- Items are known by their crates. -/
def mainHir : Hir where
  Crate := MainCrate
  Module := MainCrate
  Enum := Unit
  Variant := Empty
  Other := Unit
  Name := String
  Key := Empty

instance : DecidableEq mainHir.Enum := inferInstanceAs (DecidableEq Unit)

def mainDatabase : Database mainHir where
  krate module := module
  rootModule krate := krate
  dependencies _ := []
  transitiveReverseDependencies _ := []
  scope _ _ := []
  modules := ∅
  scope_modules := by
    intro module visibleFrom name child h
    cases h
  moduleOf _ := none
  isAssocItem _ := false
  parentEnum := Empty.elim
  variantName := Empty.elim
  itemInNs _ := none
  importInfoFor _ key := key.elim
  display name := name

/-- One function, which returns a `Result` with the error of `anyhow`. -/
def mainTypes : TypeDatabase mainHir where
  Ty := MainTy
  Function := Unit
  asAdt
    | .fallible => some (.Enum ())
    | .error => some (.Struct ())
  asAdtWithArgs
    | .fallible => some (.Enum (), [none, some MainTy.error])
    | .error => some (.Struct (), [])
  isNever _ := false
  isTypeParam _ := false
  display _ _ := "Result<(), Error>"
  debug _ := ""
  adtModule
    | .Enum _ => MainCrate.core
    | .Struct _ => MainCrate.anyhow
    | .Union _ => MainCrate.anyhow
  adtName
    | .Enum _ => "Result"
    | .Struct _ => "Error"
    | .Union _ => "Error"
  displayName
    | .app => some "app"
    | .core => some "core"
    | .anyhow => some "anyhow"
  pathSegments _ := []
  isNonExhaustive _ := false
  functionModule _ := MainCrate.app
  isAsync _ := false
  asyncRetType _ := none
  retType _ := .fallible
  coreResult _ := some ()
  coreOption _ := none
  args_adt ty adt args h := by
    cases ty with
    | fallible => cases h; rfl
    | error => cases h; rfl
  never_adt ty h := by cases h
  core_distinct krate id _ := nofun
  result_args krate id ty _ h := by
    cases ty with
    | fallible => exact ⟨_, _, rfl, rfl⟩
    | error => cases h

/-- The function takes the whole file. -/
def mainCtx : DecorateCtx mainHir where
  db := mainDatabase
  types := mainTypes
  sema :=
    { isExpr := fun _ => false
      isFn := fun kind => kind == "FN"
      isUse := fun _ => false
      isPath := fun _ => false
      isUseTree := fun _ => false
      toDef := fun _ => some ()
      typeOfExpr := fun _ => none
      Path := Unit
      useTree := fun _ => none
      pathOf := fun _ => ()
      qualifier := fun _ => none
      resolvePath := fun _ => none }
  syntax_ := .node "SOURCE_FILE" ⟨0, 40, by decide, by decide⟩
    [.node "FN" ⟨0, 40, by decide, by decide⟩ []]
  module := MainCrate.app

def rustKey : RustDecoration → DecorationKey
  | .FnSignature => ⟨"FnSignature"⟩
  | .ResolvedType => ⟨"ResolvedType"⟩
  | .AdtFlags => ⟨"AdtFlags"⟩
  | .ImportSource => ⟨"ImportSource"⟩
  | .Reexports => ⟨"Reexports"⟩

theorem rustKey_injective : Function.Injective rustKey := by
  intro T T' h
  cases T <;> cases T' <;> first | rfl | exact absurd h (by decide)

def mainItem : SyntaxTree := .node ⟨1, "function_item", true, 0, 40, by decide⟩ []

def mainTree : SyntaxTree := .node ⟨0, "source_file", true, 0, 40, by decide⟩ [mainItem]

/-- The error of the function is known by its definition. -/
theorem decorations_right_main :
    let map : DecorationMap (rustDecorations rustKey Value) :=
      decorate (fun _ => []) mainCtx.answers (.node ⟨0, "source_file", true, 0, 40, by decide⟩ [mainItem])
    ∃ (sig : FnSignature) (error : ErrorType), map.get .FnSignature 1 = some sig ∧
      sig.errorType = some error ∧ error.is ⟨"anyhow", [], "Error"⟩ = true := by
  intro map
  obtain ⟨-, hsignatures, hdescribes, -⟩ := decorations_right (fun _ => []) mainCtx rustKey_injective
    (show (SyntaxTree.ids (.node ⟨0, "source_file", true, 0, 40, by decide⟩ [mainItem])).Nodup by
      decide)
  have hsig := (hsignatures 1 (mainCtx.signatureOf ())).mpr
    ⟨mainItem, List.mem_cons_of_mem _ List.mem_cons_self, Or.inl rfl, rfl,
      ⟨0, 40, by decide, by decide⟩, (), by decide, rfl, rfl⟩
  obtain ⟨error, herror, his⟩ := ((hdescribes ()).error ⟨"anyhow", [], "Error"⟩).mpr
    ⟨.fallible, .error, rfl, ⟨(), _, rfl, rfl, rfl⟩, rfl⟩
  exact ⟨_, error, hsig, herror, his⟩

end Stiles.RustProvider
