import Mathlib.Data.Finset.Basic
import Mathlib.Data.List.Sort
import Stiles.General.Splice
import Stiles.Tools.Bundle.Tokens

/-
  The rewrite of the paths of a tsrs file (`rewrite.rs` of bundle-tsrs).

  `visit` walks the tokens and pushes an edit for each path that names another place in the bundle;
  `apply` sorts the edits and splices them into the text. The lexer is proc_macro2's.

  * `visit_eq`: where no literal holds an escape, the visit pushes what each identifier calls for.
  * `apply_eq`: edits that stand one after the other are made as they are.
-/

namespace Stiles

namespace Bundle

/-- One replacement of a byte range of the file. -/
structure Edit where
  range : ByteRange
  replacement : String
deriving DecidableEq, Repr

/-- What the crates of one bundle say: their names, and the macros that they export. -/
structure Rewriter where
  crates : Finset String
  exported : Finset String

/-- A file after the rewrite, with the paths that its includes read. -/
structure Rewritten where
  text : List UInt8
  includes : List String
deriving DecidableEq

/-- The edits and the includes that were pushed. -/
structure Pushed where
  edits : List Edit
  includes : List String
deriving DecidableEq

namespace Pushed

def nothing : Pushed := ⟨[], []⟩

def edit (start stop : Nat) (replacement : String) : Pushed := ⟨[⟨⟨start, stop⟩, replacement⟩], []⟩

def append (first second : Pushed) : Pushed :=
  ⟨first.edits ++ second.edits, first.includes ++ second.includes⟩

end Pushed

namespace Rewriter

/-- `tokens[index]` ends a path with the name of an exported macro. -/
def namesMacro (self : Rewriter) (tokens : List TokenTree) (index : Nat) : Bool :=
  match tokens[index]? with
  | some (.Ident name _) => decide (name ∈ self.exported) && !isPathSeparator tokens (index + 1)
  | _ => false

/-- Where `tokens[index]` starts. -/
def startOf (tokens : List TokenTree) (index : Nat) : Nat :=
  (tokens[index]?.map fun t => t.span.start).getD 0

/-- What an identifier at `tokens[index]` pushes. -/
def visitIdent (self : Rewriter) (module : String) (tokens : List TokenTree) (index : Nat)
    (name : String) (range : ByteRange) : AnyhowResult Pushed :=
  if name = "crate" then
    if isPathSeparator tokens (index + 1) && !self.namesMacro tokens (index + 3) then
      .ok (.edit range.stop range.stop ("::" ++ module))
    else .ok .nothing
  else if name ∈ self.crates then
    if followsPathOrField tokens index then .ok .nothing
    else if isPathSeparator tokens (index + 1) && self.namesMacro tokens (index + 3) then
      .ok (.edit range.start (startOf tokens (index + 3)) "crate::")
    else .ok (.edit range.start range.start "crate::")
  else if name = "env" then
    match withContext "failed to read env!" (macroLiteral tokens index) with
    | .error e => .error e
    | .ok none => .ok .nothing
    | .ok (some (literal, stop)) =>
      if literal = "CARGO_MANIFEST_DIR" then
        .ok (.edit range.start stop
          ("concat!(env!(\"CARGO_MANIFEST_DIR\"), \"/" ++ module ++ "\")"))
      else .ok .nothing
  else if name = "include_str" || name = "include_bytes" then
    match withContext "failed to read an include" (macroLiteral tokens index) with
    | .error e => .error e
    | .ok none => .ok .nothing
    | .ok (some (literal, _)) => .ok ⟨[], [literal]⟩
  else .ok .nothing

mutual

/-- The walk over the tokens of `tokens` from `index` on. -/
def visitFrom (self : Rewriter) (module : String) (tokens : List TokenTree) (index : Nat) :
    List TokenTree → Pushed → AnyhowResult Pushed
  | [], pushed => .ok pushed
  | t :: rest, pushed =>
    match visitToken self module tokens index t pushed with
    | .error e => .error e
    | .ok pushed => visitFrom self module tokens (index + 1) rest pushed

def visitToken (self : Rewriter) (module : String) (tokens : List TokenTree) (index : Nat) :
    TokenTree → Pushed → AnyhowResult Pushed
  | .Group _ stream _, pushed =>
    withContext "failed to rewrite a group of tokens"
      (visitFrom self module stream 0 stream pushed)
  | .Ident name span, pushed =>
    (self.visitIdent module tokens index name span).map pushed.append
  | .Punct _ _ _, pushed => .ok pushed
  | .Literal _ _, pushed => .ok pushed

end

def visit (self : Rewriter) (module : String) (stream : List TokenTree) (pushed : Pushed) :
    AnyhowResult Pushed :=
  self.visitFrom module stream 0 stream pushed

end Rewriter

/-! ## Applying -/

def bytes (text : String) : List UInt8 := text.toUTF8.toList

/-- The order that edits are sorted by. -/
def Edit.le (a b : Edit) : Bool :=
  decide (a.range.start < b.range.start ∨
    a.range.start = b.range.start ∧ a.range.stop ≤ b.range.stop)

/-- The text from `position` on, with the edits made. -/
def applyFrom (text : List UInt8) : Nat → List Edit → List UInt8 → AnyhowResult (List UInt8)
  | position, [], output => .ok (output ++ text.drop position)
  | position, edit :: edits, output =>
    if edit.range.start < position then
      .error (.msg ("two edits overlap at byte " ++ toString edit.range.start))
    else
      applyFrom text edit.range.stop edits
        (output ++ (text.drop position).take (edit.range.start - position) ++
          bytes edit.replacement)

def apply (text : List UInt8) (edits : List Edit) : AnyhowResult (List UInt8) :=
  applyFrom text 0 (edits.mergeSort Edit.le) []

/-- The lexer of proc_macro2. -/
abbrev Lexer := List UInt8 → Except String (List TokenTree)

/-- `Rewriter::rewrite` of a file of the crate `module`. -/
def Rewriter.rewrite (self : Rewriter) (lexer : Lexer) (text : List UInt8) (module : String) :
    AnyhowResult Rewritten :=
  match lexer text with
  | .error message =>
    .error ⟨"failed to read the tokens of the file", ["failed to lex the file", message]⟩
  | .ok stream =>
    match withContext "failed to find the paths to rewrite"
      (self.visit module stream .nothing) with
    | .error e => .error e
    | .ok pushed =>
      (withContext "failed to apply the rewrite" (apply text pushed.edits)).map fun text =>
        { text, includes := pushed.includes }

/-! ## What the visit pushes -/

namespace Rewriter

variable {self : Rewriter} {module : String}

/-- What an identifier of the file pushes, where its literal holds no escape. -/
def pushedAt (self : Rewriter) (module : String) (o : Occurrence) : Pushed :=
  match self.visitIdent module o.tokens o.index o.name o.span with
  | .error _ => .nothing
  | .ok pushed => pushed

def editsAt (self : Rewriter) (module : String) (o : Occurrence) : List Edit :=
  (self.pushedAt module o).edits

def includesAt (self : Rewriter) (module : String) (o : Occurrence) : List String :=
  (self.pushedAt module o).includes

/-- What the identifiers push, in their order. -/
def pushedBy (self : Rewriter) (module : String) (os : List Occurrence) : Pushed :=
  ⟨os.flatMap (self.editsAt module), os.flatMap (self.includesAt module)⟩

/-- No literal that the identifier asks for holds an escape. -/
def Reads (self : Rewriter) (module : String) (o : Occurrence) : Prop :=
  self.visitIdent module o.tokens o.index o.name o.span = .ok (self.pushedAt module o)

theorem append_pushedBy (pushed : Pushed) (first second : List Occurrence) :
    (pushed.append (self.pushedBy module first)).append (self.pushedBy module second) =
      pushed.append (self.pushedBy module (first ++ second)) := by
  unfold Pushed.append pushedBy
  rw [List.flatMap_append, List.flatMap_append, List.append_assoc, List.append_assoc]

theorem append_pushedBy_nil (pushed : Pushed) :
    pushed.append (self.pushedBy module []) = pushed := by
  unfold Pushed.append pushedBy
  rw [List.flatMap_nil, List.flatMap_nil, List.append_nil, List.append_nil]

mutual

/-- The visit pushes what each identifier calls for, in their order. -/
theorem visitFrom_eq (before ts : List TokenTree) (pushed : Pushed)
    (h : ∀ o ∈ occurrences before ts, self.Reads module o) :
    self.visitFrom module (before ++ ts) before.length ts pushed =
      .ok (pushed.append (self.pushedBy module (occurrences before ts))) := by
  match ts with
  | [] =>
    rw [occurrences, append_pushedBy_nil]
    rfl
  | t :: ts =>
    have hfirst := visitToken_eq before ts t pushed
      fun o ho => h o (by rw [occurrences]; exact List.mem_append_left _ ho)
    have hrest := visitFrom_eq (before ++ [t]) ts
      (pushed.append (self.pushedBy module (occurrencesIn before ts t)))
      fun o ho => h o (by rw [occurrences]; exact List.mem_append_right _ ho)
    rw [List.append_assoc, List.singleton_append, List.length_append, List.length_singleton]
      at hrest
    unfold visitFrom
    rw [hfirst]
    dsimp only
    rw [hrest, append_pushedBy, occurrences]

theorem visitToken_eq (before after : List TokenTree) (t : TokenTree) (pushed : Pushed)
    (h : ∀ o ∈ occurrencesIn before after t, self.Reads module o) :
    self.visitToken module (before ++ t :: after) before.length t pushed =
      .ok (pushed.append (self.pushedBy module (occurrencesIn before after t))) := by
  match t with
  | .Ident name span =>
    have hreads : self.visitIdent module (before ++ .Ident name span :: after) before.length name
        span = .ok (self.pushedAt module ⟨before, name, span, after⟩) :=
      h ⟨before, name, span, after⟩ (List.mem_singleton_self _)
    unfold visitToken
    rw [hreads, occurrencesIn, pushedBy, List.flatMap_singleton, List.flatMap_singleton]
    rfl
  | .Group _ stream _ =>
    have hinside := visitFrom_eq [] stream pushed h
    rw [List.nil_append, List.length_nil] at hinside
    unfold visitToken
    rw [hinside, withContext_ok, occurrencesIn]
  | .Punct _ _ _ =>
    rw [occurrencesIn, append_pushedBy_nil]
    rfl
  | .Literal _ _ =>
    rw [occurrencesIn, append_pushedBy_nil]
    rfl

end

theorem visit_eq {stream : List TokenTree}
    (h : ∀ o ∈ occurrences [] stream, self.Reads module o) :
    self.visit module stream .nothing = .ok (self.pushedBy module (occurrences [] stream)) :=
  visitFrom_eq [] stream .nothing h

theorem reads_of_visitIdent {o : Occurrence} {pushed : Pushed}
    (h : self.visitIdent module o.tokens o.index o.name o.span = .ok pushed) :
    self.Reads module o := by
  unfold Reads pushedAt
  rw [h]

mutual

/-- Where a visit succeeds, it reads the literal of each identifier. -/
theorem reads_of_visitFrom (before ts : List TokenTree) {pushed result : Pushed}
    (h : self.visitFrom module (before ++ ts) before.length ts pushed = .ok result) :
    ∀ o ∈ occurrences before ts, self.Reads module o := by
  match ts with
  | [] => exact fun o ho => absurd ho List.not_mem_nil
  | t :: ts =>
    unfold visitFrom at h
    split at h
    · cases h
    · rename_i next hfirst
      have hrest : self.visitFrom module ((before ++ [t]) ++ ts) (before ++ [t]).length ts next =
          .ok result := by
        rw [List.append_assoc, List.singleton_append, List.length_append, List.length_singleton]
        exact h
      intro o ho
      rw [occurrences, List.mem_append] at ho
      rcases ho with hhere | hlater
      · exact reads_of_visitToken before ts t hfirst o hhere
      · exact reads_of_visitFrom (before ++ [t]) ts hrest o hlater

theorem reads_of_visitToken (before after : List TokenTree) (t : TokenTree)
    {pushed result : Pushed}
    (h : self.visitToken module (before ++ t :: after) before.length t pushed = .ok result) :
    ∀ o ∈ occurrencesIn before after t, self.Reads module o := by
  match t with
  | .Ident name span =>
    intro o ho
    obtain rfl := List.mem_singleton.mp ho
    unfold visitToken at h
    cases hident : self.visitIdent module (before ++ .Ident name span :: after) before.length name
        span with
    | error e =>
      rw [hident] at h
      cases h
    | ok added => exact reads_of_visitIdent hident
  | .Group _ stream _ =>
    unfold visitToken at h
    exact reads_of_visitFrom [] stream (withContext_eq_ok.mp h)
  | .Punct _ _ _ => exact fun o ho => absurd ho List.not_mem_nil
  | .Literal _ _ => exact fun o ho => absurd ho List.not_mem_nil

end

end Rewriter

/-! ## What is replaced at an identifier -/

namespace Occurrence

theorem isPathSeparator_after (o : Occurrence) (k : Nat) :
    isPathSeparator o.tokens (o.index + (k + 1)) = isPathSeparator o.after k := by
  have hcons : isPathSeparator (.Ident o.name o.span :: o.after) (k + 1) =
      isPathSeparator o.after k := rfl
  rw [tokens, index, isPathSeparator_behind, hcons]

theorem getElem?_after (o : Occurrence) (k : Nat) :
    o.tokens[o.index + (k + 1)]? = o.after[k]? := by
  rw [tokens, index, getElem?_behind]
  rfl

/-- A path that goes on has two puncts behind the identifier. -/
theorem after_of_isPathSeparator {o : Occurrence} (h : isPathSeparator o.after 0 = true) :
    ∃ first firstSpan second secondSpan spacing rest,
      o.after = .Punct first .Joint firstSpan :: .Punct second spacing secondSpan :: rest := by
  unfold isPathSeparator at h
  split at h
  · rename_i first spacing firstSpan hfirst
    rw [Bool.and_eq_true, Bool.and_eq_true] at h
    obtain ⟨⟨_, hspacing⟩, hsecond⟩ := h
    unfold isPunct at hsecond
    split at hsecond
    · rename_i second secondSpacing secondSpan hnext
      obtain ⟨hlength, hget⟩ := List.getElem?_eq_some_iff.mp hnext
      cases hafter : o.after with
      | nil =>
        rw [hafter] at hfirst
        cases hfirst
      | cons t rest =>
        rw [hafter] at hfirst hnext
        cases rest with
        | nil => cases hnext
        | cons next rest =>
          obtain rfl := Option.some.inj hfirst
          obtain rfl := Option.some.inj hnext
          rw [of_decide_eq_true hspacing]
          exact ⟨first, firstSpan, second, secondSpan, secondSpacing, rest, rfl⟩
    · cases hsecond
  · cases h

/-- The string of a call `!("...")` behind an identifier, with the end of the call. -/
def call (o : Occurrence) : Option (String × Nat) :=
  match o.after with
  | .Punct punct _ _ :: .Group _ [.Literal text _] span :: _ =>
    if punct = '!' then (unquoted text).map fun value => (value, span.stop) else none
  | _ => none

/-- A call reaches to its end. -/
theorem reach_of_call {o : Occurrence} {value : String} {stop : Nat}
    (h : o.call = some (value, stop)) : o.reach = stop := by
  unfold call at h
  split at h
  · rename_i hafter
    split at h
    · obtain ⟨_, _, hpair⟩ := Option.map_eq_some_iff.mp h
      rw [reach, hafter, Bundle.reach]
      exact congrArg Prod.snd hpair
    · cases h
  · cases h

/-- The string that the rewrite reads at an identifier is that of the call behind it. -/
theorem macroLiteral_eq (o : Occurrence) :
    (o.call = none → macroLiteral o.tokens o.index = .ok none) ∧
      ∀ value stop, o.call = some (value, stop) →
        macroLiteral o.tokens o.index = .ok (some (value, stop)) ∨
          ∃ e, macroLiteral o.tokens o.index = .error e := by
  have htokens : macroLiteral o.tokens o.index =
      macroLiteral (.Ident o.name o.span :: o.after) 0 := macroLiteral_behind o.before _ 0
  rw [htokens]
  unfold call macroLiteral
  split
  · rename_i punct spacing punctSpan delimiter text literalSpan span rest hafter
    rw [hafter]
    have hpunct : isPunct (.Ident o.name o.span :: .Punct punct spacing punctSpan ::
        .Group delimiter [.Literal text literalSpan] span :: rest) (0 + 1) '!' =
          decide (punct = '!') := rfl
    rw [hpunct]
    by_cases hbang : punct = '!'
    · rw [if_pos hbang, decide_eq_true hbang]
      simp only [Bool.not_true, Bool.false_eq_true, if_false, List.getElem?_cons_succ,
        List.getElem?_cons_zero]
      cases unquoted text with
      | none => exact ⟨fun _ => rfl, fun value stop h => by cases h⟩
      | some value =>
        refine ⟨(fun h => by cases h), fun other stop h => ?_⟩
        cases h
        dsimp only
        split
        · exact Or.inr ⟨_, rfl⟩
        · exact Or.inl rfl
    · rw [if_neg hbang, decide_eq_false hbang]
      exact ⟨fun _ => rfl, fun value stop h => by cases h⟩
  · rename_i hnot
    refine ⟨fun _ => ?_, fun value stop h => by cases h⟩
    split
    · rfl
    · rename_i hpunct
      split
      · rename_i text literalSpan span hgroup
        -- a `!` and a group with one literal are a call
        cases hafter : o.after with
        | nil =>
          rw [hafter] at hgroup
          cases hgroup
        | cons t rest =>
          rw [hafter] at hgroup hpunct
          cases rest with
          | nil => cases hgroup
          | cons next rest =>
            obtain rfl := Option.some.inj hgroup
            cases t with
            | Punct punct spacing punctSpan =>
              exact absurd hafter (hnot punct spacing punctSpan _ text literalSpan span rest)
            | Ident name identSpan => exact absurd rfl hpunct
            | Group delimiter stream groupSpan => exact absurd rfl hpunct
            | Literal literal literalSpan => exact absurd rfl hpunct
      · rfl

end Occurrence

namespace Rewriter

variable {self : Rewriter} {module : String}

/-- The name of a macro behind a path separator is as far as the identifier reaches. -/
theorem startOf_named {o : Occurrence} (hpath : isPathSeparator o.tokens (o.index + 1) = true)
    (hnamed : self.namesMacro o.tokens (o.index + 3) = true) :
    startOf o.tokens (o.index + 3) = o.reach := by
  rw [o.isPathSeparator_after 0] at hpath
  obtain ⟨first, firstSpan, second, secondSpan, spacing, rest, hafter⟩ :=
    Occurrence.after_of_isPathSeparator hpath
  have hthird : o.tokens[o.index + 3]? = rest[0]? := by
    rw [o.getElem?_after 2, hafter]
    rfl
  unfold namesMacro at hnamed
  rw [hthird] at hnamed
  cases rest with
  | nil => cases hnamed
  | cons next rest =>
    rw [startOf, hthird, Occurrence.reach, hafter]
    rfl

/-- The edits of an identifier stand between its start and as far as it reaches, and there is at
    most one. -/
theorem editsAt_cases {o : Occurrence} (hspan : o.span.start < o.span.stop)
    (hreach : o.span.stop ≤ o.reach) :
    self.editsAt module o = [] ∨ ∃ edit, self.editsAt module o = [edit] ∧
      o.span.start ≤ edit.range.start ∧ edit.range.start ≤ edit.range.stop ∧
        edit.range.stop ≤ o.reach := by
  unfold editsAt pushedAt visitIdent
  split
  · exact Or.inl rfl
  · rename_i pushed hpushed
    split at hpushed
    · split at hpushed
      · obtain rfl := Except.ok.inj hpushed
        exact Or.inr ⟨_, rfl, Nat.le_of_lt hspan, Nat.le_refl _, hreach⟩
      · obtain rfl := Except.ok.inj hpushed
        exact Or.inl rfl
    · split at hpushed
      · split at hpushed
        · obtain rfl := Except.ok.inj hpushed
          exact Or.inl rfl
        · split at hpushed
          · rename_i hnamed
            obtain ⟨hpath, hname⟩ := Bool.and_eq_true_iff.mp hnamed
            obtain rfl := Except.ok.inj hpushed
            rw [startOf_named hpath hname]
            exact Or.inr ⟨_, rfl, Nat.le_refl _, by dsimp only; omega, Nat.le_refl _⟩
          · obtain rfl := Except.ok.inj hpushed
            exact Or.inr ⟨_, rfl, Nat.le_refl _, Nat.le_refl _, by dsimp only; omega⟩
      · split at hpushed
        · cases hcall : o.call with
          | none =>
            rw [o.macroLiteral_eq.1 hcall] at hpushed
            obtain rfl := Except.ok.inj hpushed
            exact Or.inl rfl
          | some found =>
            have hstop := Occurrence.reach_of_call hcall
            rcases o.macroLiteral_eq.2 found.1 found.2 hcall with hread | ⟨e, he⟩
            · rw [hread] at hpushed
              simp only [withContext_ok] at hpushed
              split at hpushed
              · obtain rfl := Except.ok.inj hpushed
                exact Or.inr ⟨_, rfl, Nat.le_refl _, by dsimp only; omega, by dsimp only; omega⟩
              · obtain rfl := Except.ok.inj hpushed
                exact Or.inl rfl
            · rw [he] at hpushed
              cases hpushed
        · split at hpushed
          · split at hpushed
            · cases hpushed
            · obtain rfl := Except.ok.inj hpushed
              exact Or.inl rfl
            · obtain rfl := Except.ok.inj hpushed
              exact Or.inl rfl
          · obtain rfl := Except.ok.inj hpushed
            exact Or.inl rfl

end Rewriter

def Edit.splice (edit : Edit) : Splice UInt8 :=
  { start := edit.range.start, stop := edit.range.stop, replacement := bytes edit.replacement }

/-- The edits of identifiers that stand one after the other do so too. -/
theorem Rewriter.ordered_edits {self : Rewriter} {module : String} {at_ stop : Nat}
    {os : List Occurrence} (hle : at_ ≤ stop) (hwithin : ∀ o ∈ os, o.Within at_ stop)
    (hordered : os.Pairwise fun a b => a.reach ≤ b.span.start) :
    Splice.Ordered at_ ((os.flatMap (self.editsAt module)).map Edit.splice) stop := by
  induction os generalizing at_ with
  | nil => exact hle
  | cons o os ih =>
    obtain ⟨hfrom, hspan, hreach, hto⟩ := hwithin o List.mem_cons_self
    rw [List.pairwise_cons] at hordered
    rw [List.flatMap_cons, List.map_append]
    rcases @editsAt_cases self module o hspan hreach with hnone | ⟨edit, hone, hedit⟩
    · rw [hnone]
      exact ih hle (fun later hlater => hwithin later (List.mem_cons_of_mem _ hlater)) hordered.2
    · obtain ⟨hstart, hrange, hend⟩ := hedit
      rw [hone]
      refine ⟨Nat.le_trans hfrom hstart, hrange, ih (Nat.le_trans hend hto) ?_ hordered.2⟩
      intro later hlater
      obtain ⟨_, hlaterSpan, hlaterReach, hlaterTo⟩ :=
        hwithin later (List.mem_cons_of_mem _ hlater)
      exact ⟨Nat.le_trans hend (hordered.1 later hlater), hlaterSpan, hlaterReach, hlaterTo⟩

theorem applyFrom_eq {text : List UInt8} {position : Nat} {edits : List Edit}
    (h : Splice.Ordered position (edits.map Edit.splice) text.length) (output : List UInt8) :
    applyFrom text position edits output =
      .ok (output ++ Splice.spliceFrom position (edits.map Edit.splice) text) := by
  induction edits generalizing position output with
  | nil => rfl
  | cons edit edits ih =>
    obtain ⟨hstart, _, hrest⟩ := h
    have hnot : ¬ edit.range.start < position := Nat.not_lt.mpr hstart
    have hlater : ∀ output, applyFrom text edit.range.stop edits output =
        .ok (output ++ Splice.spliceFrom edit.range.stop (edits.map Edit.splice) text) := ih hrest
    unfold applyFrom
    rw [if_neg hnot, hlater, List.map_cons, Splice.spliceFrom]
    simp only [Edit.splice, List.append_assoc]

/-- Edits that stand one after the other are in the order that they are sorted by. -/
theorem pairwise_le {at_ stop : Nat} {edits : List Edit}
    (h : Splice.Ordered at_ (edits.map Edit.splice) stop) :
    edits.Pairwise fun a b => Edit.le a b = true := by
  have hpairwise := List.pairwise_map.mp h.pairwise
  refine hpairwise.imp_of_mem fun {a b} ha hb hab => ?_
  have hfirst := (h.mem a.splice (List.mem_map_of_mem ha)).2
  have hsecond := (h.mem b.splice (List.mem_map_of_mem hb)).2
  simp only [Edit.splice] at hfirst hsecond hab
  refine decide_eq_true ?_
  omega

/-- Edits that stand one after the other are made as they are. -/
theorem apply_eq {text : List UInt8} {edits : List Edit}
    (h : Splice.Ordered 0 (edits.map Edit.splice) text.length) :
    apply text edits = .ok (Splice.spliceFrom 0 (edits.map Edit.splice) text) := by
  unfold apply
  rw [List.mergeSort_of_pairwise (pairwise_le h)]
  exact applyFrom_eq h []

/-- A file whose tokens are laid out in it is rewritten with the edits of its identifiers. -/
theorem Rewriter.rewrite_eq {self : Rewriter} {module : String} {lexer : Lexer}
    {text : List UInt8} {stream : List TokenTree} (hlex : lexer text = .ok stream)
    (hlaid : LaidOut 0 stream text.length)
    (hreads : ∀ o ∈ occurrences [] stream, self.Reads module o) :
    ∃ output, self.rewrite lexer text module =
        .ok ⟨output, (occurrences [] stream).flatMap (self.includesAt module)⟩ ∧
      Splice.Ordered 0 (((occurrences [] stream).flatMap (self.editsAt module)).map Edit.splice)
        text.length ∧
      Splice.Spliced 0 (((occurrences [] stream).flatMap (self.editsAt module)).map Edit.splice)
        text output := by
  have hordered : Splice.Ordered 0
      (((occurrences [] stream).flatMap (self.editsAt module)).map Edit.splice) text.length :=
    self.ordered_edits hlaid.le (occurrences_within [] hlaid) (occurrences_ordered [] hlaid)
  refine ⟨_, ?_, hordered, Splice.spliceFrom_spliced hordered⟩
  unfold rewrite
  rw [hlex]
  dsimp only
  rw [self.visit_eq hreads, withContext_ok]
  dsimp only
  rw [pushedBy, apply_eq hordered, withContext_ok]
  rfl

end Bundle

end Stiles
