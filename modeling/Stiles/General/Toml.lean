import Mathlib.Data.List.TakeWhile

/-
  TOML assignments of one string, `dotted.key = 'value'`.

  A key is bare, or a literal or basic string; the value is a literal string, on one line or on
  several. What a text is read as:

  * `literal_append`: a literal string of literal characters is its text.
  * `literal_spec`: and no other text is read.
  * `quoted_eq_self_iff`: which texts can be written between two single quotes.
-/

namespace Toml

/-! ## Characters -/

def isBlank (c : Char) : Bool :=
  c = ' ' || c = '\t'

/-- The characters of a key without quotes. -/
def isBare (c : Char) : Bool :=
  c.isAlphanum || c = '-' || c = '_'

/-- No control character, but for the tab. -/
def isPrintable (c : Char) : Bool :=
  c = '\t' || (0x20 ≤ c.toNat && c.toNat ≠ 0x7f)

def isLiteralChar (c : Char) : Bool :=
  isPrintable c && c ≠ '\''

def skipBlank (text : List Char) : List Char :=
  text.dropWhile isBlank

/-! ## Strings -/

/-- A literal string after its opening quote, and what follows it. -/
def literal (text : List Char) : Option (List Char × List Char) :=
  match text.dropWhile isLiteralChar with
  | '\'' :: rest => some (text.takeWhile isLiteralChar, rest)
  | _ => none

/-- A literal string on several lines after its three opening quotes. It may end with two quotes of
    its own. -/
def multiline : List Char → Option (List Char × List Char)
  | [] => none
  | '\'' :: '\'' :: '\'' :: rest =>
    match rest with
    | '\'' :: '\'' :: rest => some (['\'', '\''], rest)
    | '\'' :: rest => some (['\''], rest)
    | _ => some ([], rest)
  | '\r' :: '\n' :: rest => (multiline rest).map fun read => ('\r' :: '\n' :: read.1, read.2)
  | c :: rest =>
    if isPrintable c || c = '\n' then (multiline rest).map fun read => (c :: read.1, read.2)
    else none

/-- A line break right after the opening quotes does not count. -/
def skipBreak : List Char → List Char
  | '\n' :: rest => rest
  | '\r' :: '\n' :: rest => rest
  | text => text

/-- The value of a hexadecimal digit. -/
def hexValue (c : Char) : Option Nat :=
  if '0' ≤ c ∧ c ≤ '9' then some (c.toNat - '0'.toNat)
  else if 'a' ≤ c ∧ c ≤ 'f' then some (c.toNat - 'a'.toNat + 10)
  else if 'A' ≤ c ∧ c ≤ 'F' then some (c.toNat - 'A'.toNat + 10)
  else none

/-- The character that hexadecimal digits stand for. -/
def unicode (digits : List Char) : Option Char :=
  (digits.foldlM (fun n c => (hexValue c).map (16 * n + ·)) 0).bind fun n =>
    if n.isValidChar then some (Char.ofNat n) else none

/-- The character behind a backslash in a basic string. -/
def escape : List Char → Option (Char × List Char)
  | 'b' :: rest => some ('\x08', rest)
  | 't' :: rest => some ('\t', rest)
  | 'n' :: rest => some ('\n', rest)
  | 'f' :: rest => some ('\x0c', rest)
  | 'r' :: rest => some ('\r', rest)
  | '"' :: rest => some ('"', rest)
  | '\\' :: rest => some ('\\', rest)
  | 'u' :: a :: b :: c :: d :: rest => (unicode [a, b, c, d]).map (·, rest)
  | 'U' :: a :: b :: c :: d :: e :: f :: g :: h :: rest =>
    (unicode [a, b, c, d, e, f, g, h]).map (·, rest)
  | _ => none

/-- A basic string after its opening quote. A turn reads one character. -/
def basic : Nat → List Char → Option (List Char × List Char)
  | 0, _ => none
  | _ + 1, [] => none
  | _ + 1, '"' :: rest => some ([], rest)
  | fuel + 1, '\\' :: rest =>
    (escape rest).bind fun escaped =>
      (basic fuel escaped.2).map fun read => (escaped.1 :: read.1, read.2)
  | fuel + 1, c :: rest =>
    if isPrintable c then (basic fuel rest).map fun read => (c :: read.1, read.2) else none

/-! ## Assignments -/

def simpleKey (text : List Char) : Option (List Char × List Char) :=
  match text with
  | '\'' :: rest => literal rest
  | '"' :: rest => basic text.length rest
  | _ =>
    if text.takeWhile isBare = [] then none
    else some (text.takeWhile isBare, text.dropWhile isBare)

/-- Keys with dots between them. A turn reads one key. -/
def dottedKeys : Nat → List Char → Option (List (List Char) × List Char)
  | 0, _ => none
  | fuel + 1, text =>
    match simpleKey (skipBlank text) with
    | none => none
    | some (key, rest) =>
      match skipBlank rest with
      | '.' :: rest => (dottedKeys fuel rest).map fun read => (key :: read.1, read.2)
      | rest => some ([key], rest)

/-- A string after its first single quote. -/
def quoted : List Char → Option (List Char × List Char)
  | '\'' :: '\'' :: rest => multiline (skipBreak rest)
  | text => literal text

/-- A string between single quotes. -/
def stringValue : List Char → Option (List Char × List Char)
  | '\'' :: rest => quoted rest
  | _ => none

/-- Nothing but blanks, line breaks and comments, from inside a comment or outside. -/
def isTrivia : Bool → List Char → Bool
  | _, [] => true
  | _, '\n' :: rest => isTrivia false rest
  | _, '\r' :: '\n' :: rest => isTrivia false rest
  | true, c :: rest => isPrintable c && isTrivia true rest
  | false, '#' :: rest => isTrivia true rest
  | false, c :: rest => isBlank c && isTrivia false rest

/-- The keys and the value of a text that assigns one string. -/
def assignment (text : String) : Option (List String × String) :=
  match dottedKeys text.toList.length text.toList with
  | some (keys, '=' :: rest) =>
    match stringValue (skipBlank rest) with
    | some (value, rest) =>
      if isTrivia false rest then
        some (keys.map String.ofList, String.ofList value)
      else none
    | none => none
  | _ => none

/-! ## Literal strings -/

theorem isLiteralChar_quote : isLiteralChar '\'' = false := by decide

theorem literal_append {name : List Char} (h : ∀ c ∈ name, isLiteralChar c = true)
    (rest : List Char) : literal (name ++ '\'' :: rest) = some (name, rest) := by
  have hdrop : (name ++ '\'' :: rest).dropWhile isLiteralChar = '\'' :: rest := by
    rw [List.dropWhile_append_of_pos h]
    exact List.dropWhile_cons_of_neg (by simp [isLiteralChar_quote])
  have htake : (name ++ '\'' :: rest).takeWhile isLiteralChar = name := by
    rw [List.takeWhile_append_of_pos h, List.takeWhile_cons_of_neg (by simp [isLiteralChar_quote]),
      List.append_nil]
  unfold literal
  simp only [hdrop, htake]

theorem literal_spec {text content rest : List Char} (h : literal text = some (content, rest)) :
    (∀ c ∈ content, isLiteralChar c = true) ∧ text = content ++ '\'' :: rest := by
  unfold literal at h
  split at h
  · rename_i tail hdrop
    obtain ⟨rfl, rfl⟩ := Prod.mk.inj (Option.some.inj h)
    refine ⟨fun c hc => List.mem_takeWhile_imp hc, ?_⟩
    rw [← hdrop, List.takeWhile_append_dropWhile]
  · cases h

/-- The closing quotes of a string on several lines are not part of it. -/
theorem multiline_length {text content rest : List Char}
    (h : multiline text = some (content, rest)) : content.length < text.length := by
  fun_induction multiline text generalizing content rest with
  | case1 => cases h
  | case2 rest =>
    obtain ⟨rfl, rfl⟩ := Prod.mk.inj (Option.some.inj h)
    simp
  | case3 rest =>
    obtain ⟨rfl, rfl⟩ := Prod.mk.inj (Option.some.inj h)
    simp
  | case4 rest =>
    obtain ⟨rfl, rfl⟩ := Prod.mk.inj (Option.some.inj h)
    simp
  | case5 rest ih =>
    obtain ⟨⟨inner, tail⟩, hinner, hread⟩ := Option.map_eq_some_iff.mp h
    obtain ⟨rfl, rfl⟩ := Prod.mk.inj hread
    have hlength := ih hinner
    simp only [List.length_cons]
    omega
  | case6 c rest _ _ _ ih =>
    obtain ⟨⟨inner, tail⟩, hinner, hread⟩ := Option.map_eq_some_iff.mp h
    obtain ⟨rfl, rfl⟩ := Prod.mk.inj hread
    have hlength := ih hinner
    simp only [List.length_cons]
    omega
  | case7 => cases h

theorem skipBreak_length (text : List Char) : (skipBreak text).length ≤ text.length := by
  unfold skipBreak
  split
  · exact Nat.le_succ _
  · exact (Nat.le_succ _).trans (Nat.le_succ _)
  · exact le_rfl

theorem quoted_append {text : List Char} (h : ∀ c ∈ text, isLiteralChar c = true)
    {rest : List Char} (hrest : rest.head? ≠ some '\'') :
    quoted (text ++ '\'' :: rest) = some (text, rest) := by
  unfold quoted
  split
  · rename_i tail htail
    cases text with
    | nil =>
      have hquote : rest = '\'' :: tail := (List.cons.inj htail).2
      rw [hquote] at hrest
      exact absurd rfl hrest
    | cons c text =>
      have hquote : c = '\'' := (List.cons.inj htail).1
      have hc := h c List.mem_cons_self
      rw [hquote, isLiteralChar_quote] at hc
      cases hc
  · exact literal_append h rest

/-- A text can be written between two single quotes exactly if its characters are literal ones. -/
theorem quoted_eq_self_iff {text : List Char} :
    (∃ rest, quoted (text ++ ['\'']) = some (text, rest)) ↔
      ∀ c ∈ text, isLiteralChar c = true := by
  constructor
  · intro h
    obtain ⟨rest, hvalue⟩ := h
    unfold quoted at hvalue
    split at hvalue
    · rename_i tail htail
      -- the quotes that close a string of several lines leave too little for the text
      have hlength := congrArg List.length htail
      have hcontent := (multiline_length hvalue).trans_le (skipBreak_length tail)
      simp only [List.length_append, List.length_cons, List.length_nil] at hlength
      omega
    · exact (literal_spec hvalue).1
  · intro h
    have hnil : ([] : List Char).head? ≠ some '\'' := by simp
    exact ⟨[], quoted_append h hnil⟩

/-! ## Keys -/

theorem bare_append {name : List Char} (h : ∀ c ∈ name, isBare c = true) {sep : Char}
    (hsep : isBare sep = false) (rest : List Char) :
    (name ++ sep :: rest).takeWhile isBare = name ∧
      (name ++ sep :: rest).dropWhile isBare = sep :: rest := by
  constructor
  · rw [List.takeWhile_append_of_pos h, List.takeWhile_cons_of_neg (by simp [hsep]),
      List.append_nil]
  · rw [List.dropWhile_append_of_pos h]
    exact List.dropWhile_cons_of_neg (by simp [hsep])

theorem skipBlank_cons {c : Char} (h : isBlank c = false) (rest : List Char) :
    skipBlank (c :: rest) = c :: rest :=
  List.dropWhile_cons_of_neg (by simp [h])

theorem isBlank_of_bare {c : Char} (h : isBare c = true) : isBlank c = false := by
  unfold isBlank
  rw [Bool.or_eq_false_iff, decide_eq_false_iff_not, decide_eq_false_iff_not]
  constructor
  · rintro rfl
    exact absurd h (by decide)
  · rintro rfl
    exact absurd h (by decide)

/-- A bare key ends at the first character that is not bare. -/
theorem simpleKey_bare {name : List Char} (h : ∀ c ∈ name, isBare c = true) (hne : name ≠ [])
    {sep : Char} (hsep : isBare sep = false) (rest : List Char) :
    simpleKey (skipBlank (name ++ sep :: rest)) = some (name, sep :: rest) := by
  obtain ⟨htake, hdrop⟩ := bare_append h hsep rest
  obtain ⟨c, more, rfl⟩ := List.exists_cons_of_ne_nil hne
  have hc : isBare c = true := h c List.mem_cons_self
  rw [List.cons_append, skipBlank_cons (isBlank_of_bare hc), ← List.cons_append]
  unfold simpleKey
  split
  · rename_i tail htail
    obtain ⟨rfl, _⟩ := List.cons.inj htail
    exact absurd hc (by decide)
  · rename_i tail htail
    obtain ⟨rfl, _⟩ := List.cons.inj htail
    exact absurd hc (by decide)
  · rw [htake, hdrop, if_neg hne]

theorem dottedKeys_of_key {text key rest : List Char}
    (h : simpleKey (skipBlank text) = some (key, '.' :: rest)) (fuel : Nat) :
    dottedKeys (fuel + 1) text
      = (dottedKeys fuel rest).map fun read => (key :: read.1, read.2) := by
  have hdot : skipBlank ('.' :: rest) = '.' :: rest := skipBlank_cons (by decide) rest
  rw [dottedKeys, h]
  simp only [hdot]

theorem dottedKeys_bare {name : List Char} (h : ∀ c ∈ name, isBare c = true) (hne : name ≠ [])
    (fuel : Nat) (rest : List Char) : dottedKeys (fuel + 1) (name ++ '.' :: rest)
      = (dottedKeys fuel rest).map fun read => (name :: read.1, read.2) :=
  dottedKeys_of_key (simpleKey_bare h hne (by decide) rest) fuel

theorem dottedKeys_literal {name : List Char} (h : ∀ c ∈ name, isLiteralChar c = true)
    (fuel : Nat) (rest : List Char) : dottedKeys (fuel + 1) ('\'' :: (name ++ '\'' :: '.' :: rest))
      = (dottedKeys fuel rest).map fun read => (name :: read.1, read.2) := by
  refine dottedKeys_of_key ?_ fuel
  rw [skipBlank_cons (by decide)]
  exact literal_append h _

theorem dottedKeys_last {name : List Char} (h : ∀ c ∈ name, isBare c = true) (hne : name ≠ [])
    (fuel : Nat) (rest : List Char) :
    dottedKeys (fuel + 1) (name ++ '=' :: rest) = some ([name], '=' :: rest) := by
  have hequals : skipBlank ('=' :: rest) = '=' :: rest := skipBlank_cons (by decide) rest
  have hkey : simpleKey (skipBlank (name ++ '=' :: rest)) = some (name, '=' :: rest) :=
    simpleKey_bare h hne (by decide) rest
  rw [dottedKeys, hkey]
  simp only [hequals]
  rfl

/-- A key that starts with a single quote has literal characters only. -/
theorem dottedKeys_quoted {fuel : Nat} {text rest key : List Char} {keys : List (List Char)}
    (h : dottedKeys fuel ('\'' :: text) = some (key :: keys, rest)) :
    ∀ c ∈ key, isLiteralChar c = true := by
  cases fuel with
  | zero => cases h
  | succ fuel =>
    unfold dottedKeys at h
    have hkey : simpleKey (skipBlank ('\'' :: text)) = literal text := by
      rw [skipBlank_cons (by decide)]
      rfl
    rw [hkey] at h
    split at h
    · cases h
    · rename_i first more hliteral
      split at h
      · obtain ⟨read, _, hread⟩ := Option.map_eq_some_iff.mp h
        obtain ⟨hfirst, _⟩ := Prod.mk.inj hread
        rw [← (List.cons.inj hfirst).1]
        exact (literal_spec hliteral).1
      · obtain ⟨hfirst, _⟩ := Prod.mk.inj (Option.some.inj h)
        rw [← (List.cons.inj hfirst).1]
        exact (literal_spec hliteral).1

/-! ## Whole assignments -/

theorem keys_of_assignment {text value : String} {keys : List String}
    (h : assignment text = some (keys, value)) : ∃ names rest,
      dottedKeys text.toList.length text.toList = some (names, rest) ∧
        names.map String.ofList = keys := by
  unfold assignment at h
  split at h
  · rename_i names rest hkeys
    refine ⟨names, _, hkeys, ?_⟩
    split at h
    · split at h
      · exact (Prod.mk.inj (Option.some.inj h)).1
      · cases h
    · cases h
  · cases h

/-- Where a text ends with a value between single quotes, the value is read back exactly if its
    characters are literal ones. -/
theorem assignment_quoted {text : String} {names : List (List Char)} {value : List Char}
    (h : dottedKeys text.toList.length text.toList
      = some (names, '=' :: '\'' :: (value ++ ['\'']))) :
    assignment text = some (names.map String.ofList, String.ofList value) ↔
      ∀ c ∈ value, isLiteralChar c = true := by
  have hvalue : stringValue (skipBlank ('\'' :: (value ++ ['\'']))) = quoted (value ++ ['\'']) := by
    rw [skipBlank_cons (by decide)]
    rfl
  unfold assignment
  simp only [h, hvalue]
  constructor
  · intro hread
    split at hread
    · rename_i found rest hquoted
      split at hread
      · have hfound : String.ofList found = String.ofList value :=
          (Prod.mk.inj (Option.some.inj hread)).2
        obtain rfl := String.ofList_inj.mp hfound
        exact quoted_eq_self_iff.mp ⟨rest, hquoted⟩
      · cases hread
    · cases hread
  · intro hliteral
    have hnil : ([] : List Char).head? ≠ some '\'' := by simp
    simp only [quoted_append hliteral hnil]
    rfl

end Toml
