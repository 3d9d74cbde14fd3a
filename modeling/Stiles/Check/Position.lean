import Mathlib.Data.List.Induction
import Mathlib.Data.Prod.Lex
import Stiles.Check.Report
import Stiles.General.Offsets

/-
  The line and the column of a byte offset (`position` in `finding.rs`).

  `position` is the function as the report uses it. `position?` is the same with every point at
  which the source can panic: the subtraction of the loop and the two slices.

  * `position?_eq`: none of them does.
  * `position_boundary`: at a character boundary the result counts the line breaks and what follows
    the last one.
  * `position_determines`: what it is at every offset, and that it increases from boundary to
    boundary.
-/

namespace Stiles

/-! ## With the panics -/

/-- `while !source.is_char_boundary(end)`, where `0 - 1` overflows. -/
def backUp? (source : String) : Nat → Option Nat
  | 0 => if isCharBoundary source 0 then some 0 else none
  | stop + 1 => if isCharBoundary source (stop + 1) then some (stop + 1) else backUp? source stop

/-- `&text[..stop]`, which panics unless it ends between two characters. -/
def sliceTo (text : List Char) (stop : Nat) : Option (List Char) :=
  (Offsets.split? Char.utf8Size text stop).map Prod.fst

/-- `&text[start..]`, which panics unless it starts between two characters. -/
def sliceFrom (text : List Char) (start : Nat) : Option (List Char) :=
  (Offsets.split? Char.utf8Size text start).map Prod.snd

/-- `str::rfind`: the offset of the last occurrence. -/
def rfind (c : Char) : List Char → Option Nat
  | [] => none
  | d :: text =>
    match rfind c text with
    | some offset => some (d.utf8Size + offset)
    | none => if d = c then some 0 else none

def position? (source : String) (offset : Nat) : Option (Nat × Nat) := do
  let stop ← backUp? source (min offset source.utf8ByteSize)
  let before ← sliceTo source.toList stop
  let line := before.count '\n' + 1
  let lineStart := (rfind '\n' before).elim 0 fun newline => newline + 1
  let column := (← sliceFrom before lineStart).length + 1
  return (line, column)

/-! ## Character boundaries -/

/-- The length of a text in bytes. -/
abbrev byteSize (text : List Char) : Nat := Offsets.size Char.utf8Size text

theorem utf8ByteSize_eq (source : String) : source.utf8ByteSize = byteSize source.toList := by
  have hlist : ∀ text : List Char, (String.ofList text).utf8ByteSize = byteSize text := by
    intro text
    induction text with
    | nil => rfl
    | cons c text ih =>
      rw [String.ofList_cons, String.utf8ByteSize_append, String.utf8ByteSize_singleton, ih]
      exact (Offsets.size_cons _ _ _).symm
  rw [← hlist, String.ofList_toList]

theorem mem_charBoundaries {text : List Char} {start offset : Nat} :
    offset ∈ charBoundaries text start ↔
      ∃ front rest, text = front ++ rest ∧ offset = start + byteSize front := by
  induction text generalizing start with
  | nil =>
    rw [charBoundaries, List.mem_singleton]
    constructor
    · intro h
      exact ⟨[], [], rfl, h⟩
    · intro h
      obtain ⟨front, rest, hnil, hoffset⟩ := h
      rw [(List.append_eq_nil_iff.mp hnil.symm).1] at hoffset
      exact hoffset
  | cons c text ih =>
    rw [charBoundaries, List.mem_cons, ih]
    constructor
    · intro h
      rcases h with rfl | ⟨front, rest, rfl, hoffset⟩
      · exact ⟨[], c :: text, rfl, rfl⟩
      · refine ⟨c :: front, rest, rfl, ?_⟩
        rw [hoffset, byteSize, byteSize, Offsets.size_cons, Nat.add_assoc]
    · intro h
      obtain ⟨front, rest, htext, hoffset⟩ := h
      cases front with
      | nil => exact Or.inl hoffset
      | cons d front =>
        obtain ⟨rfl, htail⟩ := List.cons.inj htext
        refine Or.inr ⟨front, rest, htail, ?_⟩
        rw [hoffset, byteSize, byteSize, Offsets.size_cons, Nat.add_assoc]

theorem isCharBoundary_iff {source : String} {offset : Nat} :
    isCharBoundary source offset = true ↔
      Offsets.Boundary Char.utf8Size source.toList offset := by
  rw [isCharBoundary, List.contains_iff_mem, mem_charBoundaries]
  simp only [Nat.zero_add, Offsets.Boundary]
  exact exists_congr fun front => exists_congr fun rest => and_congr_right fun _ => eq_comm

theorem isCharBoundary_zero (source : String) : isCharBoundary source 0 = true :=
  isCharBoundary_iff.mpr (Offsets.boundary_zero _ _)

/-- The largest character boundary that is not above `bound`. -/
def LastBoundary (source : String) (bound stop : Nat) : Prop :=
  isCharBoundary source stop = true ∧ stop ≤ bound ∧
    ∀ other, isCharBoundary source other = true → other ≤ bound → other ≤ stop

theorem backUp_last (source : String) (bound : Nat) :
    LastBoundary source bound (backUp source bound) := by
  induction bound with
  | zero => exact ⟨isCharBoundary_zero source, Nat.le_refl 0, fun other _ hle => hle⟩
  | succ bound ih =>
    unfold backUp
    by_cases hboundary : isCharBoundary source (bound + 1) = true
    · rw [if_pos hboundary]
      exact ⟨hboundary, Nat.le_refl _, fun other _ hle => hle⟩
    · rw [if_neg hboundary]
      obtain ⟨hstop, hle, hmax⟩ := ih
      refine ⟨hstop, by omega, ?_⟩
      intro other hother hbound
      have hne : other ≠ bound + 1 := fun h => hboundary (h ▸ hother)
      exact hmax other hother (by omega)

theorem backUp_of_boundary {source : String} {offset : Nat}
    (h : isCharBoundary source offset = true) : backUp source offset = offset := by
  obtain ⟨_, hle, hmax⟩ := backUp_last source offset
  exact Nat.le_antisymm hle (hmax offset h (Nat.le_refl _))

theorem backUp?_eq (source : String) (bound : Nat) :
    backUp? source bound = some (backUp source bound) := by
  induction bound with
  | zero =>
    rw [backUp?, if_pos (isCharBoundary_zero source)]
    rfl
  | succ bound ih =>
    rw [backUp?, backUp, ih]
    split <;> rfl

theorem textBefore_append (front rest : List Char) :
    textBefore (front ++ rest) (byteSize front) = front := by
  induction front with
  | nil =>
    cases rest with
    | nil => rfl
    | cons c rest =>
      have hc := c.utf8Size_pos
      exact if_neg (by simp only [byteSize, Offsets.size_nil]; omega)
  | cons c front ih =>
    rw [List.cons_append, textBefore, byteSize, Offsets.size_cons, if_pos (by omega),
      Nat.add_sub_cancel_left, ih]

/-! ## The last line of a text -/

/-- What follows the last line break. -/
def lastLine (text : List Char) : List Char :=
  (text.reverse.takeWhile fun c => c ≠ '\n').reverse

theorem lastLine_concat (text : List Char) (c : Char) :
    lastLine (text ++ [c]) = if c = '\n' then [] else lastLine text ++ [c] := by
  rw [lastLine, List.reverse_concat, List.takeWhile_cons]
  by_cases hc : c = '\n'
  · simp [hc]
  · rw [if_neg hc, if_pos (decide_eq_true hc), List.reverse_cons]
    rfl

/-- A text is its last line, behind nothing or behind a line break. -/
theorem lastLine_cases (text : List Char) :
    (text = lastLine text ∧ '\n' ∉ text) ∨
      ∃ front, text = front ++ '\n' :: lastLine text ∧ '\n' ∉ lastLine text := by
  induction text using List.reverseRecOn with
  | nil => exact Or.inl ⟨rfl, List.not_mem_nil⟩
  | append_singleton text c ih =>
    rw [lastLine_concat]
    by_cases hc : c = '\n'
    · rw [if_pos hc, hc]
      exact Or.inr ⟨text, rfl, List.not_mem_nil⟩
    · have hfresh : ∀ line : List Char, '\n' ∉ line → '\n' ∉ line ++ [c] := by
        intro line hline hmem
        rcases List.mem_append.mp hmem with h | h
        · exact hline h
        · exact hc (List.mem_singleton.mp h).symm
      rw [if_neg hc]
      rcases ih with ⟨htext, hnone⟩ | ⟨front, htext, hnone⟩
      · exact Or.inl ⟨congrArg (· ++ [c]) htext, hfresh _ hnone⟩
      · refine Or.inr ⟨front, ?_, hfresh _ hnone⟩
        rw [← List.cons_append, ← List.append_assoc, ← htext]

theorem rfind_eq_none {c : Char} {text : List Char} (h : c ∉ text) : rfind c text = none := by
  induction text with
  | nil => rfl
  | cons d text ih =>
    obtain ⟨hne, htail⟩ := not_or.mp fun hmem => h (List.mem_cons.mpr hmem)
    rw [rfind, ih htail]
    exact if_neg (Ne.symm hne)

theorem rfind_append {c : Char} {front rest : List Char} (h : c ∉ rest) :
    rfind c (front ++ c :: rest) = some (byteSize front) := by
  induction front with
  | nil =>
    rw [List.nil_append, rfind, rfind_eq_none h]
    exact if_pos rfl
  | cons d front ih =>
    rw [List.cons_append, rfind, ih, byteSize, byteSize, Offsets.size_cons]

/-- The slice from the start of the last line is the last line. -/
theorem sliceFrom_lastLine (text : List Char) :
    sliceFrom text ((rfind '\n' text).elim 0 fun newline => newline + 1)
      = some (lastLine text) := by
  rcases lastLine_cases text with ⟨hline, hnone⟩ | ⟨front, htext, hnone⟩
  · rw [rfind_eq_none hnone, sliceFrom, Option.elim_none, ← hline]
    have hsplit := Offsets.split?_append Char.utf8Size_pos [] text
    rw [List.nil_append, Offsets.size_nil] at hsplit
    rw [hsplit]
    rfl
  · have hfind : rfind '\n' text = some (byteSize front) := by
      rw [htext]
      exact rfind_append hnone
    have hstart : byteSize front + 1 = byteSize (front ++ ['\n']) := by
      rw [byteSize, byteSize, Offsets.size_append]
      rfl
    have hsplit := Offsets.split?_append Char.utf8Size_pos (front ++ ['\n']) (lastLine text)
    rw [List.append_assoc, List.singleton_append, ← htext] at hsplit
    rw [hfind, Option.elim_some, hstart, sliceFrom, byteSize, hsplit]
    rfl

theorem lastLine_append {text line : List Char} (h : '\n' ∉ line) :
    lastLine (text ++ line) = lastLine text ++ line := by
  have htake : ∀ c ∈ line.reverse, decide (c ≠ '\n') = true := by
    intro c hc
    exact decide_eq_true fun hnewline => h (hnewline ▸ List.mem_reverse.mp hc)
  rw [lastLine, List.reverse_append, List.takeWhile_append_of_pos htake, List.reverse_append,
    List.reverse_reverse, lastLine]

/-! ## Positions -/

/-- The position behind a text. -/
def positionAfter (before : List Char) : Nat × Nat :=
  (before.count '\n' + 1, (lastLine before).length + 1)

theorem position_eq (source : String) {offset stop : Nat} {before after : List Char}
    (hsource : source.toList = before ++ after) (hsize : byteSize before = stop)
    (hstop : backUp source (min offset source.utf8ByteSize) = stop) :
    position source offset = positionAfter before := by
  have htext : textBefore source.toList stop = before := by
    rw [hsource, ← hsize]
    exact textBefore_append before after
  rw [position, hstop, htext, positionAfter, lastLine, List.length_reverse]

/-- No subtraction overflows, and both slices are cut at character boundaries. -/
theorem position?_eq (source : String) (offset : Nat) :
    position? source offset = some (position source offset) := by
  obtain ⟨hboundary, _, _⟩ := backUp_last source (min offset source.utf8ByteSize)
  obtain ⟨before, after, hsource, hsize⟩ := isCharBoundary_iff.mp hboundary
  have hslice : sliceTo source.toList (backUp source (min offset source.utf8ByteSize))
      = some before := by
    rw [sliceTo, (Offsets.split?_eq_some Char.utf8Size_pos).mpr ⟨hsource, hsize⟩]
    rfl
  rw [position?, backUp?_eq, position_eq source hsource hsize rfl]
  change (sliceTo source.toList _).bind _ = _
  rw [hslice, Option.bind_some]
  change (sliceFrom before _).bind _ = _
  rw [sliceFrom_lastLine]
  rfl

theorem position_boundary {source : String} {before after : List Char}
    (hsource : source.toList = before ++ after) :
    position source (byteSize before) = positionAfter before := by
  have hboundary : isCharBoundary source (byteSize before) = true :=
    isCharBoundary_iff.mpr ⟨before, after, hsource, rfl⟩
  have hle : byteSize before ≤ source.utf8ByteSize := by
    rw [utf8ByteSize_eq]
    exact Offsets.boundary_le _ (isCharBoundary_iff.mp hboundary)
  apply position_eq source hsource rfl
  rw [Nat.min_eq_left hle]
  exact backUp_of_boundary hboundary

/-- More text is a later position: a new line, or a later column of the same line. -/
theorem positionAfter_lt (before : List Char) {between : List Char} (h : between ≠ []) :
    toLex (positionAfter before) < toLex (positionAfter (before ++ between)) := by
  rw [Prod.Lex.toLex_lt_toLex, positionAfter, positionAfter, List.count_append]
  by_cases hnewline : '\n' ∈ between
  · have hcount := List.count_pos_iff.mpr hnewline
    left
    dsimp only
    omega
  · have hlength := List.length_pos_iff.mpr h
    rw [List.count_eq_zero.mpr hnewline, lastLine_append hnewline, List.length_append]
    right
    dsimp only
    omega

theorem position_lt {source : String} {offset offset' : Nat}
    (h : isCharBoundary source offset = true) (h' : isCharBoundary source offset' = true)
    (hlt : offset < offset') :
    toLex (position source offset) < toLex (position source offset') := by
  obtain ⟨before, after, hsource, rfl⟩ := isCharBoundary_iff.mp h
  obtain ⟨before', after', hsource', rfl⟩ := isCharBoundary_iff.mp h'
  obtain ⟨between, hne, rfl⟩ := Offsets.front_of_size_lt (hsource.symm.trans hsource') hlt
  have hposition := position_boundary hsource
  have hposition' := position_boundary hsource'
  rw [byteSize] at hposition hposition'
  rw [hposition, hposition']
  exact positionAfter_lt before hne

/-- At every offset `position` ends without a panic. It stops at the last character boundary that
    is neither above the offset nor behind the text, and returns one more than the line breaks
    before it and one more than the characters behind the last of them. From boundary to boundary
    the position increases, so a line and a column tell the boundary they came from. -/
theorem position_determines (source : String) :
    (∀ offset, position? source offset = some (position source offset) ∧
      ∃ (before after front line : List Char),
        source.toList = before ++ after ∧
        LastBoundary source (min offset source.utf8ByteSize) (byteSize before) ∧
        before = front ++ line ∧ '\n' ∉ line ∧ (front = [] ∨ front.getLast? = some '\n') ∧
        position source offset = (1 + before.count '\n', 1 + line.length)) ∧
    (∀ offset offset', isCharBoundary source offset = true → isCharBoundary source offset' = true →
      offset < offset' → toLex (position source offset) < toLex (position source offset')) ∧
    ∀ offset offset', isCharBoundary source offset = true → isCharBoundary source offset' = true →
      position source offset = position source offset' → offset = offset' := by
  refine ⟨fun offset => ⟨position?_eq source offset, ?_⟩, fun _ _ => position_lt, ?_⟩
  · have hlast := backUp_last source (min offset source.utf8ByteSize)
    obtain ⟨before, after, hsource, hsize⟩ := isCharBoundary_iff.mp hlast.1
    have hposition : position source offset
        = (1 + before.count '\n', 1 + (lastLine before).length) := by
      rw [position_eq source hsource hsize rfl, positionAfter, Nat.add_comm 1, Nat.add_comm 1]
    rw [← hsize] at hlast
    rcases lastLine_cases before with ⟨hline, hnone⟩ | ⟨front, hbefore, hnone⟩
    · exact ⟨before, after, [], lastLine before, hsource, hlast, hline, hline ▸ hnone, Or.inl rfl,
        hposition⟩
    · refine ⟨before, after, front ++ ['\n'], lastLine before, hsource, hlast, ?_, hnone,
        Or.inr List.getLast?_concat, hposition⟩
      rw [List.append_assoc]
      exact hbefore
  · intro offset offset' h h' hsame
    rcases Nat.lt_trichotomy offset offset' with hlt | heq | hlt
    · exact absurd (hsame ▸ position_lt h h' hlt) (lt_irrefl _)
    · exact heq
    · exact absurd (hsame ▸ position_lt h' h hlt) (lt_irrefl _)

/-- Inside a character, behind a line break and past the end. -/
example : position "é = 1\n" 3 = (1, 3) ∧ position "aé" 2 = (1, 2) ∧
    position "ab\ncd" 99 = (2, 3) := by
  decide

end Stiles
