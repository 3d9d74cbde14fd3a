import Stiles.General.Offsets
import Stiles.General.Text

/-
  Which module names name a file and not a package (`tspath` of tsrs_core).

  A name is read as a path. The length of its root is in bytes; all that the root is made of is
  ASCII, but for the host of a share or of a URL.

  * `len_getEncodedRootLength_le`: the root is a part of the path.
  * `isRootedDiskPath_iff`: which paths have the root of a disk.
  * `isExternalModuleNameRelative_package`: a package is not named by a file.
-/

namespace Stiles.TypeScriptProvider

/-! ## The root of a path -/

inductive EncodedRootLength where
  | Relative
  | Disk (length : Nat)
  | Url (length : Nat)
deriving DecidableEq, Repr

def EncodedRootLength.len : EncodedRootLength → Nat
  | .Relative => 0
  | .Disk length => length
  | .Url length => length

def URL_SCHEME_SEPARATOR : List Char := "://".toList

def DYNAMIC_URI_FILE_NAME_PREFIX : List Char := "^/~ts-uri~/".toList

/-- `str::len`. -/
def byteLength (text : List Char) : Nat := Offsets.size Char.utf8Size text

def isAnyDirectorySeparator (c : Char) : Bool := c = '/' || c = '\\'

def isVolumeCharacter (c : Char) : Bool := c.isLower || c.isUpper

def eqIgnoreAsciiCase (text other : List Char) : Bool :=
  text.map Char.toLower = other.map Char.toLower

/-- Where the separator behind a volume ends that stands at `start`, and what follows it. -/
def getFileUrlVolumeSeparatorEnd (fromStart : List Char) (start : Nat) :
    Option (Nat × List Char) :=
  match fromStart with
  | ':' :: rest => some (start + 1, rest)
  | '%' :: '3' :: 'a' :: rest => some (start + 3, rest)
  | '%' :: '3' :: 'A' :: rest => some (start + 3, rest)
  | _ => none

/-- POSIX or UNC: the path `ch0 :: rest`, which starts with a separator. -/
def separatorRoot (ch0 : Char) (rest : List Char) : EncodedRootLength :=
  match rest with
  | [] => .Disk 1
  | ch1 :: server =>
    if ch1 ≠ ch0 then .Disk 1
    else
      match Text.cut? [ch0] server with
      | none => .Disk (byteLength (ch0 :: ch1 :: server))
      | some (host, _) => .Disk (byteLength host + 2 + 1)

/-- A virtual file name, which starts with `^/`. -/
def dynamicRoot (path : List Char) : EncodedRootLength :=
  if DYNAMIC_URI_FILE_NAME_PREFIX.isPrefixOf path then
    match Text.cut? ['/'] (path.drop DYNAMIC_URI_FILE_NAME_PREFIX.length) with
    | none => .Disk 2
    | some (scheme, rest) =>
      let schemeEnd := byteLength DYNAMIC_URI_FILE_NAME_PREFIX + byteLength scheme
      match Text.cut? ['/'] rest with
      | none => .Url (byteLength path)
      | some (authority, _) => .Disk (schemeEnd + byteLength authority + 2)
  else .Disk 2

/-- The volume of a local `file` URL, whose path is `file`. -/
def urlVolume (scheme authority file : List Char) (authorityEnd : Nat) :
    Option (Nat × List Char) :=
  match file with
  | [] => none
  | letter :: rest =>
    if eqIgnoreAsciiCase scheme "file".toList &&
        (authority.isEmpty || eqIgnoreAsciiCase authority "localhost".toList) &&
        (!rest.isEmpty && isVolumeCharacter letter) then
      getFileUrlVolumeSeparatorEnd rest (authorityEnd + 2)
    else none

def urlRoot (path : List Char) : EncodedRootLength :=
  match Text.cut? URL_SCHEME_SEPARATOR path with
  | none => .Relative
  | some (scheme, rest) =>
    let authorityStart := byteLength scheme + byteLength URL_SCHEME_SEPARATOR
    match Text.cut? ['/'] rest with
    | none => .Url (byteLength path)
    | some (authority, file) =>
      let authorityEnd := authorityStart + byteLength authority
      match urlVolume scheme authority file authorityEnd with
      | some (volumeEnd, []) => .Url volumeEnd
      | some (volumeEnd, '/' :: _) => .Url (volumeEnd + 1)
      | _ => .Url (authorityEnd + 1)

/-- The root of a DOS path, if the path starts with a volume. -/
def dosRoot (ch0 : Char) (rest : List Char) : Option EncodedRootLength :=
  match isVolumeCharacter ch0, rest with
  | true, [':'] => some (.Disk 2)
  | true, ':' :: ch2 :: _ => if isAnyDirectorySeparator ch2 then some (.Disk 3) else none
  | _, _ => none

def getEncodedRootLength (path : List Char) : EncodedRootLength :=
  match path with
  | [] => .Relative
  | ch0 :: rest =>
    if isAnyDirectorySeparator ch0 then separatorRoot ch0 rest
    else if ch0 = '^' && rest.head? = some '/' then dynamicRoot path
    else (dosRoot ch0 rest).getD (urlRoot path)

def isRootedDiskPath (path : List Char) : Bool :=
  match getEncodedRootLength path with
  | .Disk _ => true
  | .Relative => false
  | .Url _ => false

/-- The path is `.` or `..`, or starts with one of them and a separator. -/
def pathIsRelative (path : List Char) : Bool :=
  match path with
  | ['.'] => true
  | ['.', '.'] => true
  | '.' :: '/' :: _ => true
  | '.' :: '\\' :: _ => true
  | '.' :: '.' :: '/' :: _ => true
  | '.' :: '.' :: '\\' :: _ => true
  | _ => false

def isExternalModuleNameRelative (moduleName : String) : Bool :=
  pathIsRelative moduleName.toList || isRootedDiskPath moduleName.toList

/-! ## The root is a part of the path -/

theorem byteLength_append (l m : List Char) :
    byteLength (l ++ m) = byteLength l + byteLength m :=
  Offsets.size_append Char.utf8Size l m

theorem byteLength_cons (c : Char) (l : List Char) :
    byteLength (c :: l) = c.utf8Size + byteLength l := rfl

theorem byteLength_cut {pattern path front rest : List Char}
    (h : Text.cut? pattern path = some (front, rest)) :
    byteLength path = byteLength front + byteLength pattern + byteLength rest := by
  rw [Text.cut?_eq_some h, byteLength_append, byteLength_append]

theorem utf8Size_separator {c : Char} (h : isAnyDirectorySeparator c = true) : c.utf8Size = 1 := by
  unfold isAnyDirectorySeparator at h
  rcases Bool.or_eq_true_iff.mp h with h | h
  · rw [of_decide_eq_true h]
    rfl
  · rw [of_decide_eq_true h]
    rfl

theorem len_separatorRoot_le {ch0 : Char} {rest : List Char}
    (h : isAnyDirectorySeparator ch0 = true) :
    (separatorRoot ch0 rest).len ≤ byteLength (ch0 :: rest) := by
  have hch0 := utf8Size_separator h
  unfold separatorRoot
  rw [byteLength_cons, hch0]
  split
  · exact Nat.le_add_right _ _
  · next ch1 server =>
    split
    · exact Nat.le_add_right _ _
    · next hsame =>
      have hch1 : ch1 = ch0 := not_not.mp hsame
      split
      · rw [byteLength_cons, hch0]
        exact le_rfl
      · next host tail hcut =>
        rw [byteLength_cons, hch1, byteLength_cut hcut, byteLength_cons, hch0]
        change byteLength host + 2 + 1 ≤ _
        omega

theorem len_dynamicRoot_le {rest : List Char} :
    (dynamicRoot ('^' :: '/' :: rest)).len ≤ byteLength ('^' :: '/' :: rest) := by
  have hshort : 2 ≤ byteLength ('^' :: '/' :: rest) := by
    rw [byteLength_cons, byteLength_cons]
    change 2 ≤ 1 + (1 + byteLength rest)
    omega
  unfold dynamicRoot
  split
  · next hprefix =>
    obtain ⟨tail, htail⟩ := List.isPrefixOf_iff_prefix.mp hprefix
    rw [← htail, byteLength_append] at hshort
    rw [← htail, List.drop_left, byteLength_append]
    split
    · exact hshort
    · next scheme rest' hscheme =>
      dsimp only
      split
      · exact le_rfl
      · next authority file hauthority =>
        rw [byteLength_cut hscheme, byteLength_cut hauthority]
        change _ + 2 ≤ _ + (_ + 1 + (_ + 1 + _))
        omega
  · exact hshort

theorem getFileUrlVolumeSeparatorEnd_le {text rest : List Char} {start stop : Nat}
    (h : getFileUrlVolumeSeparatorEnd text start = some (stop, rest)) :
    stop + byteLength rest = start + byteLength text := by
  unfold getFileUrlVolumeSeparatorEnd at h
  split at h <;> cases h
  · change _ = _ + (1 + byteLength rest)
    omega
  · change _ = _ + (1 + (1 + (1 + byteLength rest)))
    omega
  · change _ = _ + (1 + (1 + (1 + byteLength rest)))
    omega

theorem urlVolume_le {scheme authority file rest : List Char} {authorityEnd stop : Nat}
    (h : urlVolume scheme authority file authorityEnd = some (stop, rest)) :
    stop + byteLength rest ≤ authorityEnd + 1 + byteLength file := by
  unfold urlVolume at h
  split at h
  · cases h
  · next letter tail =>
    split at h
    · have hstop := getFileUrlVolumeSeparatorEnd_le h
      have hletter := letter.utf8Size_pos
      rw [byteLength_cons]
      omega
    · cases h

theorem len_urlRoot_le (path : List Char) : (urlRoot path).len ≤ byteLength path := by
  unfold urlRoot
  split
  · exact Nat.zero_le _
  · next scheme rest hscheme =>
    dsimp only
    split
    · exact le_rfl
    · next authority file hauthority =>
      have hpath := byteLength_cut hscheme
      rw [byteLength_cut hauthority, show byteLength ['/'] = 1 from rfl] at hpath
      split
      · next volumeEnd hvolume =>
        have hend := urlVolume_le hvolume
        change volumeEnd + 0 ≤ _ at hend
        change volumeEnd ≤ _
        omega
      · next volumeEnd tail hvolume =>
        have hend := urlVolume_le hvolume
        rw [byteLength_cons, show '/'.utf8Size = 1 from rfl] at hend
        change volumeEnd + 1 ≤ _
        omega
      · change _ + 1 ≤ _
        omega

/-- A volume, and a separator or nothing behind its colon. -/
theorem dosRoot_eq_some {ch0 : Char} {rest : List Char} {root : EncodedRootLength} :
    dosRoot ch0 rest = some root ↔ isVolumeCharacter ch0 = true ∧
      (rest = [':'] ∧ root = .Disk 2 ∨
        ∃ ch2 tail, rest = ':' :: ch2 :: tail ∧ isAnyDirectorySeparator ch2 = true ∧
          root = .Disk 3) := by
  unfold dosRoot
  split
  · next hvolume =>
    constructor
    · exact fun h => ⟨hvolume, Or.inl ⟨rfl, (Option.some.inj h).symm⟩⟩
    · rintro ⟨-, ⟨-, rfl⟩ | ⟨ch2, tail, h, -⟩⟩
      · rfl
      · cases h
  · next ch2 tail hvolume =>
    split
    · next hseparator =>
      constructor
      · exact fun h =>
          ⟨hvolume, Or.inr ⟨ch2, tail, rfl, hseparator, (Option.some.inj h).symm⟩⟩
      · rintro ⟨-, ⟨h, -⟩ | ⟨ch2', tail', -, -, rfl⟩⟩
        · cases h
        · rfl
    · next hseparator =>
      refine iff_of_false nofun ?_
      rintro ⟨-, ⟨h, -⟩ | ⟨ch2', tail', h, hseparator', -⟩⟩
      · cases h
      · cases h
        exact hseparator hseparator'
  · next hother hother' =>
    refine iff_of_false nofun ?_
    rintro ⟨hvolume, ⟨rfl, -⟩ | ⟨ch2, tail, rfl, -⟩⟩
    · exact hother hvolume rfl
    · exact hother' ch2 tail hvolume rfl

/-- The root is a part of the path. -/
theorem len_getEncodedRootLength_le (path : List Char) :
    (getEncodedRootLength path).len ≤ byteLength path := by
  unfold getEncodedRootLength
  split
  · exact Nat.zero_le _
  · next ch0 rest =>
    split
    · next hseparator => exact len_separatorRoot_le hseparator
    · split
      · next hdynamic =>
        obtain ⟨hcaret, hslash⟩ := Bool.and_eq_true_iff.mp hdynamic
        obtain ⟨tail, rfl⟩ := List.head?_eq_some_iff.mp (of_decide_eq_true hslash)
        rw [of_decide_eq_true hcaret]
        exact len_dynamicRoot_le
      · cases hdos : dosRoot ch0 rest with
        | none => exact len_urlRoot_le _
        | some root =>
          have hfirst := ch0.utf8Size_pos
          rcases (dosRoot_eq_some.mp hdos).2 with ⟨rfl, rfl⟩ | ⟨ch2, tail, rfl, hch2, rfl⟩
          · rw [byteLength_cons]
            change 2 ≤ _ + 1
            omega
          · rw [byteLength_cons, byteLength_cons, byteLength_cons, utf8Size_separator hch2]
            change 3 ≤ _ + (1 + (1 + _))
            omega

/-! ## Which names are names of files -/

/-- A virtual name of a document with a scheme and no authority. -/
def NoAuthority (path : List Char) : Prop :=
  ∃ scheme, '/' ∉ scheme ∧ ∃ rest, '/' ∉ rest ∧
    path = DYNAMIC_URI_FILE_NAME_PREFIX ++ scheme ++ '/' :: rest

/-- The path starts with a separator, with `^/`, or with a volume. -/
inductive Rooted : List Char → Prop where
  | separator {ch0 : Char} {rest : List Char} (h : isAnyDirectorySeparator ch0 = true) :
    Rooted (ch0 :: rest)
  | dynamic {rest : List Char} (h : ¬NoAuthority ('^' :: '/' :: rest)) : Rooted ('^' :: '/' :: rest)
  | volume {ch0 : Char} (h : isVolumeCharacter ch0 = true) : Rooted [ch0, ':']
  | dos {ch0 ch2 : Char} {rest : List Char} (h : isVolumeCharacter ch0 = true)
    (hseparator : isAnyDirectorySeparator ch2 = true) : Rooted (ch0 :: ':' :: ch2 :: rest)

theorem dynamicRoot_disk_iff {rest : List Char} :
    (∃ length, dynamicRoot ('^' :: '/' :: rest) = .Disk length) ↔
      ¬NoAuthority ('^' :: '/' :: rest) := by
  have hslash : ∀ l : List Char, ['/'] <:+: l ↔ '/' ∈ l := List.singleton_infix_iff '/'
  unfold dynamicRoot
  split
  · next hprefix =>
    obtain ⟨tail, htail⟩ := List.isPrefixOf_iff_prefix.mp hprefix
    rw [← htail, List.drop_left]
    have hsplit : NoAuthority (DYNAMIC_URI_FILE_NAME_PREFIX ++ tail) ↔
        ∃ scheme, '/' ∉ scheme ∧ ∃ rest, '/' ∉ rest ∧ tail = scheme ++ '/' :: rest := by
      unfold NoAuthority
      simp only [List.append_assoc, List.append_cancel_left_eq]
    rw [hsplit]
    split
    · next hscheme =>
      refine iff_of_true ⟨_, rfl⟩ ?_
      rintro ⟨scheme, -, rest', -, rfl⟩
      exact Text.cut?_eq_none hscheme ((hslash _).mpr (by simp))
    · next scheme rest' hscheme =>
      have htail : tail = scheme ++ '/' :: rest' := by
        rw [Text.cut?_eq_some hscheme, List.append_assoc]
        rfl
      dsimp only
      split
      · next hauthority =>
        have hrest : '/' ∉ rest' := fun hmem =>
          Text.cut?_eq_none hauthority ((hslash _).mpr hmem)
        exact iff_of_false nofun
          (not_not.mpr ⟨scheme, Text.notMem_of_cut? hscheme, rest', hrest, htail⟩)
      · next authority file hauthority =>
        refine iff_of_true ⟨_, rfl⟩ ?_
        rintro ⟨scheme', hscheme', rest'', hrest, htail'⟩
        obtain ⟨-, rfl⟩ := Text.append_sep_inj (Text.notMem_of_cut? hscheme) hscheme'
          (htail.symm.trans htail')
        rw [Text.cut?_eq_some hauthority] at hrest
        exact hrest (by simp)
  · next hprefix =>
    refine iff_of_true ⟨2, rfl⟩ ?_
    rintro ⟨scheme, -, rest', -, h⟩
    rw [h, List.append_assoc] at hprefix
    exact hprefix (List.isPrefixOf_iff_prefix.mpr (List.prefix_append _ _))

theorem urlRoot_ne_disk (path : List Char) (length : Nat) : urlRoot path ≠ .Disk length := by
  unfold urlRoot
  split
  · nofun
  · dsimp only
    split
    · nofun
    · split <;> nofun

theorem isRootedDiskPath_eq_true {path : List Char} :
    isRootedDiskPath path = true ↔ ∃ length, getEncodedRootLength path = .Disk length := by
  unfold isRootedDiskPath
  cases getEncodedRootLength path with
  | Relative => exact iff_of_false nofun nofun
  | Disk length => exact iff_of_true rfl ⟨length, rfl⟩
  | Url length => exact iff_of_false nofun nofun

theorem separatorRoot_disk (ch0 : Char) (rest : List Char) :
    ∃ length, separatorRoot ch0 rest = .Disk length := by
  unfold separatorRoot
  split
  · exact ⟨_, rfl⟩
  · split
    · exact ⟨_, rfl⟩
    · split <;> exact ⟨_, rfl⟩

/-- Which paths have the root of a disk. -/
theorem isRootedDiskPath_iff {path : List Char} : isRootedDiskPath path = true ↔ Rooted path := by
  rw [isRootedDiskPath_eq_true]
  unfold getEncodedRootLength
  split
  · exact iff_of_false nofun nofun
  · next ch0 rest =>
    split
    · next hseparator => exact iff_of_true (separatorRoot_disk ch0 rest) (.separator hseparator)
    · next hseparator =>
      split
      · next hdynamic =>
        obtain ⟨hcaret, hslash⟩ := Bool.and_eq_true_iff.mp hdynamic
        obtain ⟨tail, rfl⟩ := List.head?_eq_some_iff.mp (of_decide_eq_true hslash)
        obtain rfl : ch0 = '^' := of_decide_eq_true hcaret
        rw [dynamicRoot_disk_iff]
        refine ⟨.dynamic, fun hrooted => ?_⟩
        cases hrooted with
        | separator h => exact absurd h hseparator
        | dynamic h => exact h
      · next hdynamic =>
        constructor
        · rintro ⟨length, hlength⟩
          cases hdos : dosRoot ch0 rest with
          | none =>
            rw [hdos] at hlength
            exact absurd hlength (urlRoot_ne_disk _ length)
          | some root =>
            obtain ⟨hvolume, ⟨rfl, -⟩ | ⟨ch2, tail, rfl, hch2, -⟩⟩ := dosRoot_eq_some.mp hdos
            · exact .volume hvolume
            · exact .dos hvolume hch2
        · intro hrooted
          cases hrooted with
          | separator h => exact absurd h hseparator
          | dynamic h => exact absurd rfl hdynamic
          | volume h =>
            rw [dosRoot_eq_some.mpr ⟨h, Or.inl ⟨rfl, rfl⟩⟩]
            exact ⟨2, rfl⟩
          | dos h hch2 =>
            rw [dosRoot_eq_some.mpr ⟨h, Or.inr ⟨_, _, rfl, hch2, rfl⟩⟩]
            exact ⟨3, rfl⟩

/-- The name is that of a file: it starts at this directory, at the one above, or at a root. -/
def NamesFile (moduleName : String) : Prop :=
  pathIsRelative moduleName.toList = true ∨ Rooted moduleName.toList

theorem isExternalModuleNameRelative_iff {moduleName : String} :
    isExternalModuleNameRelative moduleName = true ↔ NamesFile moduleName := by
  unfold isExternalModuleNameRelative NamesFile
  rw [Bool.or_eq_true, isRootedDiskPath_iff]

/-- The name of a package, or of a module in one, is not the name of a file. -/
theorem isExternalModuleNameRelative_package {moduleName : String} {first : Char}
    {rest : List Char} (hname : moduleName.toList = first :: rest)
    (hfirst : first ∉ ['.', '/', '\\', '^']) (hcolon : ':' ∉ rest) :
    isExternalModuleNameRelative moduleName = false := by
  simp only [List.mem_cons, List.not_mem_nil, or_false, not_or] at hfirst
  obtain ⟨hdot, hslash, hbackslash, hcaret⟩ := hfirst
  refine Bool.eq_false_iff.mpr fun hrelative => ?_
  rcases isExternalModuleNameRelative_iff.mp hrelative with hdots | hrooted
  · rw [hname] at hdots
    unfold pathIsRelative at hdots
    split at hdots <;> simp_all
  · rw [hname] at hrooted
    cases hrooted with
    | separator h => simp [isAnyDirectorySeparator, hslash, hbackslash] at h
    | dynamic => exact hcaret rfl
    | volume => exact hcolon List.mem_cons_self
    | dos => exact hcolon List.mem_cons_self

example : ["C:/app/a.ts", "//server/a.ts", "../a", "file:///c:/a.ts", "@scope/a", "c:a"].map
    isExternalModuleNameRelative = [true, true, true, false, false, false] := by decide

end Stiles.TypeScriptProvider
