import Mathlib.Data.List.DropRight
import Mathlib.Data.Nat.Digits.Lemmas

/-
  Texts that can be read back: fields between separators, and numbers in a fixed and in a free width.

  * `append_sep_inj`, `sep_append_inj`: a field that does not hold the separator ends at the first
    one, or starts after the last one.
  * `cut?_eq_some`, `cut?_eq_none`: a text is cut at a pattern, if it holds it.
  * `head_trim`, `last_trim`: a trimmed text has nothing left to trim.
  * `lines_append_newline`: the lines of a text, one after the other.
  * `hexFixed_inj`: a number below `16 ^ width` is known from its hexadecimal digits.
  * `repr_inj`: a number is known from its decimal digits.
-/

namespace Text

/-! ## Fields -/

theorem append_sep_inj {α : Type*} {sep : α} {xs xs' ys ys' : List α} (hxs : sep ∉ xs)
    (hxs' : sep ∉ xs') (h : xs ++ sep :: ys = xs' ++ sep :: ys') : xs = xs' ∧ ys = ys' := by
  induction xs generalizing xs' with
  | nil =>
    cases xs' with
    | nil => exact ⟨rfl, (List.cons.inj h).2⟩
    | cons x' xs' =>
      have hhead : sep = x' := (List.cons.inj h).1
      exact absurd (hhead ▸ List.mem_cons_self) hxs'
  | cons x xs ih =>
    obtain ⟨hx, hrest⟩ := not_or.mp (fun h => hxs (List.mem_cons.mpr h))
    cases xs' with
    | nil =>
      have hhead : x = sep := (List.cons.inj h).1
      exact absurd hhead.symm hx
    | cons x' xs' =>
      obtain ⟨hhead, htail⟩ := List.cons.inj h
      have hrest' : sep ∉ xs' := fun hm => hxs' (List.mem_cons_of_mem x' hm)
      obtain ⟨hfields, hends⟩ := ih hrest hrest' htail
      exact ⟨by rw [hhead, hfields], hends⟩

theorem sep_append_inj {α : Type*} {sep : α} {xs xs' ys ys' : List α} (hys : sep ∉ ys)
    (hys' : sep ∉ ys') (h : xs ++ sep :: ys = xs' ++ sep :: ys') : xs = xs' ∧ ys = ys' := by
  have hreverse : ys.reverse ++ sep :: xs.reverse = ys'.reverse ++ sep :: xs'.reverse := by
    simpa using congrArg List.reverse h
  obtain ⟨hfields, hends⟩ := append_sep_inj (fun hm => hys (List.mem_reverse.mp hm))
    (fun hm => hys' (List.mem_reverse.mp hm)) hreverse
  exact ⟨List.reverse_injective hends, List.reverse_injective hfields⟩

/-- The parts before and after the first `pattern`. -/
def cut? {α : Type*} [BEq α] (pattern : List α) : List α → Option (List α × List α)
  | [] => if pattern.isEmpty then some ([], []) else none
  | a :: l =>
    if pattern.isPrefixOf (a :: l) then some ([], (a :: l).drop pattern.length)
    else (cut? pattern l).map fun (front, rest) => (a :: front, rest)

theorem cut?_eq_some {α : Type*} [BEq α] [LawfulBEq α] {pattern l front rest : List α}
    (h : cut? pattern l = some (front, rest)) : l = front ++ pattern ++ rest := by
  induction l generalizing front with
  | nil =>
    rw [cut?] at h
    split at h
    · next hnil =>
      cases h
      rw [List.isEmpty_iff.mp hnil]
      rfl
    · cases h
  | cons a l ih =>
    rw [cut?] at h
    split at h
    · next hprefix =>
      cases h
      obtain ⟨tail, htail⟩ := List.isPrefixOf_iff_prefix.mp hprefix
      rw [← htail, List.drop_left, List.nil_append]
    · obtain ⟨⟨front', rest'⟩, hcut, heq⟩ := Option.map_eq_some_iff.mp h
      cases heq
      rw [ih hcut]
      rfl

/-- The pattern is found wherever it stands. -/
theorem cut?_eq_none {α : Type*} [BEq α] [LawfulBEq α] {pattern l : List α}
    (h : cut? pattern l = none) : ¬pattern <:+: l := by
  induction l with
  | nil =>
    rw [cut?] at h
    split at h
    · cases h
    · next hne =>
      intro hinfix
      exact hne (List.isEmpty_iff.mpr (List.infix_nil.mp hinfix))
  | cons a l ih =>
    rw [cut?] at h
    split at h
    · cases h
    · next hprefix =>
      intro hinfix
      rcases List.infix_cons_iff.mp hinfix with hfirst | hlater
      · exact hprefix (List.isPrefixOf_iff_prefix.mpr hfirst)
      · exact ih (Option.map_eq_none_iff.mp h) hlater

/-- A separator is found where it stands first. -/
theorem notMem_of_cut? {α : Type*} [BEq α] [LawfulBEq α] {sep : α} {l front rest : List α}
    (h : cut? [sep] l = some (front, rest)) : sep ∉ front := by
  induction l generalizing front with
  | nil => cases h
  | cons a l ih =>
    rw [cut?] at h
    split at h
    · cases h
      exact List.not_mem_nil
    · next hprefix =>
      obtain ⟨⟨front', rest'⟩, hcut, heq⟩ := Option.map_eq_some_iff.mp h
      cases heq
      refine List.not_mem_cons_of_ne_of_not_mem ?_ (ih hcut)
      rintro rfl
      exact hprefix (List.isPrefixOf_iff_prefix.mpr ⟨l, rfl⟩)

/-! ## Trimming -/

/-- Without the items at either end that meet `p`. -/
def trim {α : Type*} (p : α → Bool) (l : List α) : List α :=
  (l.dropWhile p).rdropWhile p

theorem mem_of_mem_trim {α : Type*} {p : α → Bool} {l : List α} {a : α} (h : a ∈ trim p l) :
    a ∈ l := by
  have hmiddle : a ∈ l.dropWhile p := (List.rdropWhile_prefix p _).subset h
  exact (List.dropWhile_sublist p).subset hmiddle

theorem head_trim {α : Type*} {p : α → Bool} {l : List α} {a : α}
    (h : (trim p l).head? = some a) : p a = false := by
  obtain ⟨rest, hrest⟩ := List.rdropWhile_prefix p (l.dropWhile p)
  have hhead : (l.dropWhile p).head? = some a := by
    rw [← hrest, List.head?_append]
    have htrim : ((l.dropWhile p).rdropWhile p).head? = some a := h
    rw [htrim]
    rfl
  have hnot := List.head?_dropWhile_not p l
  rw [hhead] at hnot
  exact hnot

theorem last_trim {α : Type*} {p : α → Bool} {l : List α} {a : α}
    (h : (trim p l).getLast? = some a) : p a = false := by
  have hne : trim p l ≠ [] := by
    intro hnil
    rw [hnil] at h
    exact absurd h (by simp)
  have hlast : (trim p l).getLast hne = a := by
    rw [List.getLast?_eq_some_getLast hne] at h
    exact Option.some.inj h
  have hnot : ¬p ((trim p l).getLast hne) = true := List.rdropWhile_last_not p _ hne
  rw [hlast] at hnot
  exact Bool.eq_false_iff.mpr hnot

/-- A text with an item that is kept is not empty when it is trimmed. -/
theorem isEmpty_trim {α : Type*} {p : α → Bool} {l : List α} {a : α} (ha : a ∈ l)
    (h : p a = false) : (trim p l).isEmpty = false := by
  rw [List.isEmpty_eq_false_iff]
  intro hnil
  have hwhite := List.rdropWhile_eq_nil_iff.mp hnil
  have hsplit : a ∈ l.takeWhile p ++ l.dropWhile p := by
    rw [List.takeWhile_append_dropWhile]
    exact ha
  have htrue : p a = true := by
    rcases List.mem_append.mp hsplit with htake | hdrop
    · exact List.mem_takeWhile_imp htake
    · exact hwhite a hdrop
  rw [h] at htrue
  cases htrue

/-! ## White space and lines -/

/-- The characters of the property `White_Space`. -/
def isWhitespace (c : Char) : Bool :=
  (9 ≤ c.toNat && c.toNat ≤ 13) || c.toNat = 0x20 || c.toNat = 0x85 || c.toNat = 0xA0 ||
    c.toNat = 0x1680 || (0x2000 ≤ c.toNat && c.toNat ≤ 0x200A) || c.toNat = 0x2028 ||
    c.toNat = 0x2029 || c.toNat = 0x202F || c.toNat = 0x205F || c.toNat = 0x3000

/-- A line without its ending `\r`. -/
def stripReturn (line : List Char) : List Char :=
  (line.dropSuffix? ['\r']).getD line

/-- `str::lines`: the last line has no ending, and is none if it is empty. -/
def lines (text : List Char) : List (List Char) :=
  match (text.splitOn '\n').reverse with
  | [] => []
  | last :: ended => ended.reverse.map stripReturn ++ if last.isEmpty then [] else [last]

theorem lines_append_newline {text : List Char} (h : '\n' ∉ text) (rest : List Char) :
    lines (text ++ '\n' :: rest) = stripReturn text :: lines rest := by
  unfold lines
  rw [List.splitOn_append_cons_self, List.splitOn_eq_singleton h, List.singleton_append,
    List.reverse_cons]
  cases hparts : (rest.splitOn '\n').reverse with
  | nil => exact absurd (List.reverse_eq_nil_iff.mp hparts) (List.splitOn_ne_nil _ _)
  | cons last ended => simp

theorem stripReturn_of_notMem {line : List Char} (h : '\r' ∉ line) : stripReturn line = line := by
  rw [stripReturn]
  cases hdrop : line.dropSuffix? ['\r'] with
  | none => rfl
  | some rest =>
    obtain ⟨ending, rfl, hending⟩ := List.dropSuffix?_eq_some_iff.mp hdrop
    rw [eq_of_beq hending] at h
    exact absurd (List.mem_append_right _ List.mem_cons_self) h

/-! ## Hexadecimal digits in a fixed width -/

/-- The last `width` hexadecimal digits, in lower case and with leading zeros. -/
def hexFixed : Nat → Nat → List Char
  | 0, _ => []
  | width + 1, n => hexFixed width (n / 16) ++ [Nat.digitChar (n % 16)]

theorem length_hexFixed (width n : Nat) : (hexFixed width n).length = width := by
  induction width generalizing n with
  | zero => rfl
  | succ width ih => rw [hexFixed, List.length_append, ih]; rfl

theorem digitChar_inj : ∀ a < 16, ∀ b < 16, Nat.digitChar a = Nat.digitChar b → a = b := by
  decide

theorem hexFixed_inj {width m n : Nat} (hm : m < 16 ^ width) (hn : n < 16 ^ width)
    (h : hexFixed width m = hexFixed width n) : m = n := by
  induction width generalizing m n with
  | zero => rw [Nat.pow_zero] at hm hn; omega
  | succ width ih =>
    rw [hexFixed, hexFixed] at h
    obtain ⟨hdigits, hlast⟩ := List.append_inj' h rfl
    have hmod : m % 16 = n % 16 :=
      digitChar_inj _ (Nat.mod_lt _ (by omega)) _ (Nat.mod_lt _ (by omega))
        (List.cons.inj hlast).1
    rw [Nat.pow_succ] at hm hn
    have hdiv : m / 16 = n / 16 := ih (by omega) (by omega) hdigits
    omega

/-- The digits that `hexFixed` writes. -/
def isHexDigit (c : Char) : Bool :=
  c.isDigit || ('a' ≤ c && c ≤ 'f')

theorem digitChar_isHexDigit : ∀ d < 16, isHexDigit (Nat.digitChar d) = true := by
  decide

theorem isHexDigit_of_mem_hexFixed {width n : Nat} {c : Char} (h : c ∈ hexFixed width n) :
    isHexDigit c = true := by
  induction width generalizing n with
  | zero => exact absurd h List.not_mem_nil
  | succ width ih =>
    rw [hexFixed, List.mem_append, List.mem_singleton] at h
    rcases h with hprevious | hlast
    · exact ih hprevious
    · rw [hlast]
      exact digitChar_isHexDigit _ (Nat.mod_lt n (by omega))

/-! ## Decimal numbers -/

theorem repr_inj {m n : Nat} (h : m.repr = n.repr) : m = n := by
  have hdigits : Nat.toDigits 10 m = Nat.toDigits 10 n := by
    rw [← Nat.toList_repr, ← Nat.toList_repr, h]
  have hm := Nat.ofDigitChars_toDigits (b := 10) (n := m) (by decide) (by decide)
  have hn := Nat.ofDigitChars_toDigits (b := 10) (n := n) (by decide) (by decide)
  rw [← hm, ← hn, hdigits]

theorem not_mem_append {c : Char} {a b : String} :
    c ∉ (a ++ b).toList ↔ c ∉ a.toList ∧ c ∉ b.toList := by
  rw [String.toList_append, List.mem_append, not_or]

theorem isDigit_of_mem_repr {n : Nat} {c : Char} (h : c ∈ n.repr.toList) : c.isDigit = true := by
  rw [Nat.toList_repr] at h
  exact Nat.isDigit_of_mem_toDigits (by decide) (by decide) h

theorem not_mem_repr {c : Char} (n : Nat) (h : c.isDigit = false) : c ∉ n.repr.toList := by
  intro hmem
  rw [isDigit_of_mem_repr hmem] at h
  cases h

end Text
