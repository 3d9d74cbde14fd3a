import Stiles.Types.Errors

/-
  Token trees and what the rewrite looks for in them (`rewrite.rs` of bundle-tsrs).

  A file is a list of token trees as proc_macro2 lexes it, each with its byte range. The lookups go
  by index into the list that holds a token. An `Occurrence` is an identifier of the file with the
  tokens before and after it in its own list; `occurrences` lists those of a file in order. A doc
  comment is lexed as the attribute that it stands for, with one span for all its tokens.

  * `occurrences_ordered`: the identifiers of a file that is laid out stand one after the other.
-/

namespace Stiles

namespace Bundle

/-- `Range<usize>` of bytes. -/
structure ByteRange where
  start : Nat
  stop : Nat
deriving DecidableEq, Repr

inductive Delimiter where
  | Parenthesis
  | Brace
  | Bracket
  | None
deriving DecidableEq, Repr

inductive Spacing where
  | Alone
  | Joint
deriving DecidableEq, Repr

inductive TokenTree where
  | Group (delimiter : Delimiter) (stream : List TokenTree) (span : ByteRange)
  | Ident (name : String) (span : ByteRange)
  | Punct (character : Char) (spacing : Spacing) (span : ByteRange)
  | Literal (text : String) (span : ByteRange)

def TokenTree.span : TokenTree → ByteRange
  | .Group _ _ span => span
  | .Ident _ span => span
  | .Punct _ _ span => span
  | .Literal _ span => span

def isPunct (tokens : List TokenTree) (index : Nat) (character : Char) : Bool :=
  match tokens[index]? with
  | some (.Punct punct _ _) => punct = character
  | _ => false

/-- `tokens[index]` and the token after it form `::`. -/
def isPathSeparator (tokens : List TokenTree) (index : Nat) : Bool :=
  match tokens[index]? with
  | some (.Punct first spacing _) =>
    first = ':' && spacing = .Joint && isPunct tokens (index + 1) ':'
  | _ => false

/-- The token before `tokens[index]` is a `::`. -/
def followsSeparator (tokens : List TokenTree) (index : Nat) : Bool :=
  match index with
  | start + 2 => isPathSeparator tokens start
  | _ => false

/-- The token before `tokens[index]` is a `::` or a `.`. -/
def followsPathOrField (tokens : List TokenTree) (index : Nat) : Bool :=
  match index with
  | 0 => false
  | previous + 1 => followsSeparator tokens (previous + 1) || isPunct tokens previous '.'

/-- The text between two quotes. -/
def unquoted (text : String) : Option String :=
  match text.toList with
  | '"' :: rest => if rest.getLast? = some '"' then some (String.ofList rest.dropLast) else none
  | _ => none

/-- The string of `name!("...")` at `tokens[index]`, with the end of the call. -/
def macroLiteral (tokens : List TokenTree) (index : Nat) : AnyhowResult (Option (String × Nat)) :=
  if !isPunct tokens (index + 1) '!' then .ok none
  else
    match tokens[index + 2]? with
    | some (.Group _ [.Literal text _] span) =>
      match unquoted text with
      | none => .ok none
      | some value =>
        if value.toList.contains '\\' then
          .error (.msg ("the string " ++ text ++ " holds an escape"))
        else .ok (some (value, span.stop))
    | _ => .ok none

/-! ## Identifiers -/

/-- An identifier, with the tokens before and after it in its list. -/
structure Occurrence where
  before : List TokenTree
  name : String
  span : ByteRange
  after : List TokenTree

namespace Occurrence

/-- The list that holds the identifier. -/
def tokens (o : Occurrence) : List TokenTree := o.before ++ .Ident o.name o.span :: o.after

def index (o : Occurrence) : Nat := o.before.length

end Occurrence

mutual

/-- The identifiers at and below the tokens that follow `before`, in order. -/
def occurrences (before : List TokenTree) : List TokenTree → List Occurrence
  | [] => []
  | t :: after => occurrencesIn before after t ++ occurrences (before ++ [t]) after

def occurrencesIn (before after : List TokenTree) : TokenTree → List Occurrence
  | .Ident name span => [⟨before, name, span, after⟩]
  | .Group _ stream _ => occurrences [] stream
  | .Punct _ _ _ => []
  | .Literal _ _ => []

end

/-! ## Lookups behind a token -/

theorem getElem?_behind (before tokens : List TokenTree) (k : Nat) :
    (before ++ tokens)[before.length + k]? = tokens[k]? := by
  rw [List.getElem?_append_right (Nat.le_add_right _ _), Nat.add_sub_cancel_left]

theorem isPunct_behind (before tokens : List TokenTree) (k : Nat) (character : Char) :
    isPunct (before ++ tokens) (before.length + k) character = isPunct tokens k character := by
  unfold isPunct
  rw [getElem?_behind]

theorem isPathSeparator_behind (before tokens : List TokenTree) (k : Nat) :
    isPathSeparator (before ++ tokens) (before.length + k) = isPathSeparator tokens k := by
  unfold isPathSeparator
  rw [getElem?_behind, Nat.add_assoc, isPunct_behind]

theorem macroLiteral_behind (before tokens : List TokenTree) (k : Nat) :
    macroLiteral (before ++ tokens) (before.length + k) = macroLiteral tokens k := by
  unfold macroLiteral
  rw [Nat.add_assoc, Nat.add_assoc, isPunct_behind, getElem?_behind]

/-! ## Layout -/

/-- What the lexer makes of a doc comment: the tokens of an attribute, all with the comment's own
    span. -/
def docComment (inner : Bool) (text : String) (span : ByteRange) : List TokenTree :=
  .Punct '#' .Alone span :: ((if inner then [.Punct '!' .Alone span] else []) ++
    [.Group .Bracket [.Ident "doc" span, .Punct '=' .Alone span, .Literal text span] span])

mutual

/-- The tokens stand between two positions, one after the other, those of a group inside it and
    those of a doc comment where the comment stands. -/
inductive LaidOut : Nat → List TokenTree → Nat → Prop
  | nil {at_ stop : Nat} (h : at_ ≤ stop) : LaidOut at_ [] stop
  | cons {at_ stop : Nat} {t : TokenTree} {ts : List TokenTree} (hstart : at_ ≤ t.span.start)
    (hinside : t.Inside) (hrest : LaidOut t.span.stop ts stop) : LaidOut at_ (t :: ts) stop
  | doc {at_ stop : Nat} {ts : List TokenTree} (inner : Bool) (text : String) (span : ByteRange)
    (hstart : at_ ≤ span.start) (hspan : span.start < span.stop)
    (hrest : LaidOut span.stop ts stop) : LaidOut at_ (docComment inner text span ++ ts) stop

inductive TokenTree.Inside : TokenTree → Prop
  | Group {delimiter : Delimiter} {stream : List TokenTree} {span : ByteRange}
    (h : LaidOut span.start stream span.stop) : TokenTree.Inside (.Group delimiter stream span)
  | Ident {name : String} {span : ByteRange} (h : span.start < span.stop) :
    TokenTree.Inside (.Ident name span)
  | Punct {character : Char} {spacing : Spacing} {span : ByteRange}
    (h : span.start < span.stop) : TokenTree.Inside (.Punct character spacing span)
  | Literal {text : String} {span : ByteRange} (h : span.start < span.stop) :
    TokenTree.Inside (.Literal text span)

end

mutual

theorem LaidOut.le {at_ stop : Nat} {ts : List TokenTree} (h : LaidOut at_ ts stop) :
    at_ ≤ stop := by
  match h with
  | .nil h => exact h
  | .cons hstart hinside hrest =>
    have hspan := TokenTree.Inside.le hinside
    have hstop := LaidOut.le hrest
    omega
  | .doc _ _ _ hstart hspan hrest =>
    have hstop := LaidOut.le hrest
    omega

theorem TokenTree.Inside.le {t : TokenTree} (h : t.Inside) : t.span.start ≤ t.span.stop := by
  match h with
  | .Group h => exact LaidOut.le h
  | .Ident h => exact Nat.le_of_lt h
  | .Punct h => exact Nat.le_of_lt h
  | .Literal h => exact Nat.le_of_lt h

end

/-- The first token of a list stands alone, or starts a doc comment. -/
theorem LaidOut.cons_cases {at_ stop : Nat} {t : TokenTree} {ts : List TokenTree}
    (h : LaidOut at_ (t :: ts) stop) :
    (at_ ≤ t.span.start ∧ t.Inside ∧ LaidOut t.span.stop ts stop) ∨
    ∃ inner text span rest, t :: ts = docComment inner text span ++ rest ∧ at_ ≤ span.start ∧
      span.start < span.stop ∧ LaidOut span.stop rest stop := by
  generalize hlist : t :: ts = list at h
  cases h with
  | nil => cases hlist
  | cons hstart hinside hrest =>
    cases hlist
    exact Or.inl ⟨hstart, hinside, hrest⟩
  | doc inner text span hstart hspan hrest =>
    exact Or.inr ⟨inner, text, span, _, rfl, hstart, hspan, hrest⟩

/-- The tokens of a list start one after the other and end before `stop`. -/
def Starts (stop : Nat) : Nat → List TokenTree → Prop
  | at_, [] => at_ ≤ stop
  | at_, t :: ts => at_ ≤ t.span.start ∧ t.span.start ≤ t.span.stop ∧ t.span.stop ≤ stop ∧
    Starts stop t.span.start ts

theorem Starts.of_le {stop at_ before : Nat} {ts : List TokenTree} (h : Starts stop at_ ts)
    (hle : before ≤ at_) : Starts stop before ts := by
  cases ts with
  | nil => exact Nat.le_trans hle h
  | cons t ts => exact ⟨Nat.le_trans hle h.1, h.2⟩

/-- The tokens of a doc comment start where it does. -/
theorem starts_docComment {at_ stop : Nat} {ts : List TokenTree} (inner : Bool) (text : String)
    {span : ByteRange} (hstart : at_ ≤ span.start) (hspan : span.start ≤ span.stop)
    (hstop : span.stop ≤ stop) (hrest : Starts stop span.start ts) :
    Starts stop at_ (docComment inner text span ++ ts) := by
  have hgroup : Starts stop span.start
      (.Group .Bracket [.Ident "doc" span, .Punct '=' .Alone span, .Literal text span] span :: ts) :=
    ⟨Nat.le_refl _, hspan, hstop, hrest⟩
  cases inner with
  | false => exact ⟨hstart, hspan, hstop, hgroup⟩
  | true => exact ⟨hstart, hspan, hstop, Nat.le_refl _, hspan, hstop, hgroup⟩

theorem LaidOut.starts {at_ stop : Nat} {ts : List TokenTree} (h : LaidOut at_ ts stop) :
    Starts stop at_ ts := by
  match h with
  | .nil h => exact h
  | .cons hstart hinside hrest =>
    have hspan := hinside.le
    exact ⟨hstart, hspan, hrest.le, (LaidOut.starts hrest).of_le hspan⟩
  | .doc inner text span hstart hspan hrest =>
    have hle := Nat.le_of_lt hspan
    exact starts_docComment inner text hstart hle hrest.le ((LaidOut.starts hrest).of_le hle)

/-- How far a replacement at an identifier goes at most: to the token behind a `::`, to the end of
    a call with one literal, or to the end of the identifier. -/
def reach (stop : Nat) : List TokenTree → Nat
  | .Punct _ _ _ :: .Punct _ _ _ :: next :: _ => next.span.start
  | .Punct _ _ _ :: .Group _ [.Literal _ _] span :: _ => span.stop
  | _ => stop

theorem reach_bounds {at_ stop : Nat} {after : List TokenTree} (h : LaidOut at_ after stop) :
    at_ ≤ reach at_ after ∧ reach at_ after ≤ stop := by
  have hstarts := h.starts
  unfold reach
  split
  · rename_i next rest
    obtain ⟨hfirst, _, _, hsecond, _, _, hnext, hspan, hstop, _⟩ := hstarts
    omega
  · rename_i span rest
    obtain ⟨hfirst, _, _, hsecond, hspan, hstop, _⟩ := hstarts
    simp only [TokenTree.span] at *
    omega
  · exact ⟨Nat.le_refl _, h.le⟩

namespace Occurrence

def reach (o : Occurrence) : Nat := Bundle.reach o.span.stop o.after

/-- The identifier and what is replaced at it stand between two positions. -/
def Within (at_ stop : Nat) (o : Occurrence) : Prop :=
  at_ ≤ o.span.start ∧ o.span.start < o.span.stop ∧ o.span.stop ≤ o.reach ∧ o.reach ≤ stop

theorem Within.mono {at_ stop before behind : Nat} {o : Occurrence} (h : o.Within at_ stop)
    (hbefore : before ≤ at_) (hbehind : stop ≤ behind) : o.Within before behind :=
  ⟨Nat.le_trans hbefore h.1, h.2.1, h.2.2.1, Nat.le_trans h.2.2.2 hbehind⟩

end Occurrence

/-- The name that a doc comment stands for. -/
def docName (text : String) (span : ByteRange) : Occurrence :=
  ⟨[], "doc", span, [.Punct '=' .Alone span, .Literal text span]⟩

theorem occurrences_docComment (before ts : List TokenTree) (inner : Bool) (text : String)
    (span : ByteRange) : occurrences before (docComment inner text span ++ ts) =
      docName text span :: occurrences (before ++ docComment inner text span) ts := by
  cases inner <;> simp [docComment, occurrences, occurrencesIn, docName]

theorem docName_within {at_ stop : Nat} {text : String} {span : ByteRange}
    (hstart : at_ ≤ span.start) (hspan : span.start < span.stop) (hstop : span.stop ≤ stop) :
    (docName text span).Within at_ stop := ⟨hstart, hspan, Nat.le_refl _, hstop⟩

mutual

theorem occurrences_within {at_ stop : Nat} (before : List TokenTree) {ts : List TokenTree}
    (h : LaidOut at_ ts stop) : ∀ o ∈ occurrences before ts, o.Within at_ stop := by
  match h with
  | .nil _ => exact fun o ho => absurd ho List.not_mem_nil
  | .cons hstart hinside hrest =>
    intro o ho
    rw [occurrences, List.mem_append] at ho
    rcases ho with hfirst | hlater
    · exact (occurrencesIn_within before hinside hrest o hfirst).mono hstart (Nat.le_refl _)
    · have hspan := hinside.le
      exact (occurrences_within _ hrest o hlater).mono (by omega) (Nat.le_refl _)
  | .doc inner text span hstart hspan hrest =>
    intro o ho
    rw [occurrences_docComment] at ho
    rcases List.mem_cons.mp ho with rfl | hlater
    · exact docName_within hstart hspan hrest.le
    · exact (occurrences_within _ hrest o hlater).mono (by omega) (Nat.le_refl _)

theorem occurrencesIn_within {stop : Nat} (before : List TokenTree) {after : List TokenTree}
    {t : TokenTree} (h : t.Inside) (hrest : LaidOut t.span.stop after stop) :
    ∀ o ∈ occurrencesIn before after t, o.Within t.span.start stop := by
  match h with
  | .Ident hspan =>
    intro o ho
    obtain rfl := List.mem_singleton.mp ho
    obtain ⟨hlow, hhigh⟩ := reach_bounds hrest
    exact ⟨Nat.le_refl _, hspan, hlow, hhigh⟩
  | .Group hstream =>
    intro o ho
    exact (occurrences_within [] hstream o ho).mono (Nat.le_refl _) hrest.le
  | .Punct _ => exact fun o ho => absurd ho List.not_mem_nil
  | .Literal _ => exact fun o ho => absurd ho List.not_mem_nil

end

/-- What is laid out goes on from where its first token starts. -/
theorem LaidOut.raise {at_ stop : Nat} {t : TokenTree} {ts : List TokenTree}
    (h : LaidOut at_ (t :: ts) stop) : LaidOut t.span.start (t :: ts) stop := by
  rcases h.cons_cases with ⟨_, hinside, hrest⟩ | ⟨inner, text, span, rest, hdoc, _, hspan, hrest⟩
  · exact .cons (Nat.le_refl _) hinside hrest
  · rw [hdoc]
    obtain rfl : t = .Punct '#' .Alone span := (List.cons.inj hdoc).1
    exact .doc inner text span (Nat.le_refl _) hspan hrest

/-- Behind two puncts every identifier starts at or behind the next token. -/
theorem next_le {at_ stop : Nat} {before rest : List TokenTree} {next : TokenTree}
    {first second : Char} {spacing later : Spacing} {span other : ByteRange}
    (h : LaidOut at_ (.Punct first spacing span :: .Punct second later other :: next :: rest) stop) :
    ∀ o ∈ occurrences before
      (.Punct first spacing span :: .Punct second later other :: next :: rest),
      next.span.start ≤ o.span.start := by
  intro o ho
  have hskip : o ∈ occurrences (before ++ [.Punct first spacing span] ++
      [.Punct second later other]) (next :: rest) := ho
  rcases h.cons_cases with ⟨_, _, h⟩ | ⟨inner, text, doc, rest', hdoc, _, hspan, hrest⟩
  · rcases h.cons_cases with ⟨_, _, h⟩ | ⟨inner, text, doc, rest', hdoc, _, hspan, hrest⟩
    · exact (occurrences_within _ h.raise o hskip).1
    · have hnext : next.span.start = doc.start := by cases inner <;> cases hdoc <;> rfl
      have hdocument := LaidOut.doc inner text doc (Nat.le_refl _) hspan hrest
      rw [hnext]
      refine (occurrences_within (before ++ [.Punct first spacing span]) hdocument o ?_).1
      rw [← hdoc]
      exact ho
  · cases inner with
    | false => cases hdoc
    | true =>
      have hdocument := LaidOut.doc true text doc (Nat.le_refl _) hspan hrest
      have hnext : next.span.start = doc.start := by cases hdoc; rfl
      rw [hnext]
      refine (occurrences_within before hdocument o ?_).1
      rw [← hdoc]
      exact ho

/-- A call with one literal is no doc comment, so that what follows starts behind it. -/
theorem LaidOut.behind_call {at_ stop : Nat} {punct : Char} {spacing : Spacing}
    {delimiter : Delimiter} {text : String} {rest : List TokenTree} {first inside span : ByteRange}
    (h : LaidOut at_ (.Punct punct spacing first :: .Group delimiter [.Literal text inside] span ::
      rest) stop) : LaidOut span.stop rest stop := by
  rcases h.cons_cases with ⟨_, _, h⟩ | ⟨inner, text, doc, rest', hdoc, _⟩
  · rcases h.cons_cases with ⟨_, _, h⟩ | ⟨inner, text, doc, rest', hdoc, _⟩
    · exact h
    · cases hdoc
  · cases inner <;> cases hdoc

/-- What follows an identifier starts behind what is replaced at it. -/
theorem reach_le {at_ stop : Nat} {before after : List TokenTree} (h : LaidOut at_ after stop) :
    ∀ o ∈ occurrences before after, reach at_ after ≤ o.span.start := by
  intro o ho
  unfold reach
  split
  · exact next_le h o ho
  · exact (occurrences_within _ h.behind_call o ho).1
  · exact (occurrences_within _ h o ho).1

mutual

/-- The identifiers of a file stand one after the other, with what is replaced at each before the
    next. -/
theorem occurrences_ordered {at_ stop : Nat} (before : List TokenTree) {ts : List TokenTree}
    (h : LaidOut at_ ts stop) :
    (occurrences before ts).Pairwise fun a b => a.reach ≤ b.span.start := by
  match h with
  | .nil _ => exact List.Pairwise.nil
  | .cons hstart hinside hrest =>
    rw [occurrences, List.pairwise_append]
    refine ⟨occurrencesIn_ordered before hinside, occurrences_ordered _ hrest, ?_⟩
    intro o ho later hlater
    cases hinside with
    | Ident hspan =>
      obtain rfl := List.mem_singleton.mp ho
      exact reach_le hrest later hlater
    | Group hstream =>
      obtain ⟨_, _, _, hto⟩ := occurrences_within [] hstream o ho
      exact Nat.le_trans hto (occurrences_within _ hrest later hlater).1
    | Punct hspan => exact absurd ho List.not_mem_nil
    | Literal hspan => exact absurd ho List.not_mem_nil
  | .doc inner text span hstart hspan hrest =>
    rw [occurrences_docComment, List.pairwise_cons]
    exact ⟨fun later hlater => (occurrences_within _ hrest later hlater).1,
      occurrences_ordered _ hrest⟩

theorem occurrencesIn_ordered (before : List TokenTree) {after : List TokenTree} {t : TokenTree}
    (h : t.Inside) :
    (occurrencesIn before after t).Pairwise fun a b => a.reach ≤ b.span.start := by
  match h with
  | .Ident _ => exact List.pairwise_singleton _ _
  | .Group hstream => exact occurrences_ordered [] hstream
  | .Punct _ => exact List.Pairwise.nil
  | .Literal _ => exact List.Pairwise.nil

end

end Bundle

end Stiles
