import Mathlib.Data.List.Basic
import Stiles.Types.FilePath

/-
  The components of a path, and what follows from them (`std::path::Path`).

  Two paths are equal, and one holds the other, by their components: repeated separators, a
  separator at the end and a `.` inside a path do not count. `FilePath.join` is `Path::join`.

  * `components_join`: joining a plain name adds one component.
-/

namespace Stiles

inductive Component where
  | RootDir
  | CurDir
  | ParentDir
  | Normal (name : List Char)
deriving DecidableEq, Repr

namespace Component

/-- A part between separators that is no leading `.`. -/
def ofPart (part : List Char) : Component :=
  if part = ['.', '.'] then .ParentDir else .Normal part

/-- The components of the parts of a path. A `.` counts only at the start of a relative one. -/
def ofParts (absolute : Bool) (parts : List (List Char)) : List Component :=
  let inner := (parts.filter fun part => part ≠ ['.']).map ofPart
  if absolute then .RootDir :: inner
  else if parts.head? = some ['.'] then .CurDir :: inner
  else inner

end Component

namespace FilePath

def isAbsolute (path : FilePath) : Bool :=
  path.text.toList.head? = some '/'

/-- The texts between the separators, without the empty ones. -/
def parts (path : FilePath) : List (List Char) :=
  (path.text.toList.splitOn '/').filter fun part => part ≠ []

def components (path : FilePath) : List Component :=
  Component.ofParts path.isAbsolute path.parts

/-- `==` of paths. -/
def Same (path other : FilePath) : Prop :=
  path.components = other.components

/-- `Path::starts_with`: `base` is the path itself or a directory above it. -/
def startsWith (path base : FilePath) : Prop :=
  base.components <+: path.components

/-- `Path::join`. -/
def join (path other : FilePath) : FilePath :=
  if other.isAbsolute then other
  else if path.text.toList = [] ∨ path.text.toList.getLast? = some '/' then
    ⟨path.text ++ other.text⟩
  else ⟨path.text ++ "/" ++ other.text⟩

/-- The components of `Path::parent`, where there is one. -/
def parent (path : FilePath) : Option (List Component) :=
  match path.components.getLast? with
  | none => none
  | some .RootDir => none
  | some _ => some path.components.dropLast

end FilePath

/-- The name of one component: not empty, without a separator, and neither `.` nor `..`. -/
def isPlain (name : String) : Bool :=
  !name.toList.isEmpty && !name.toList.contains '/' && name.toList ≠ ['.'] &&
    name.toList ≠ ['.', '.']

theorem isPlain_iff {name : String} : isPlain name = true ↔ name.toList ≠ [] ∧
    '/' ∉ name.toList ∧ name.toList ≠ ['.'] ∧ name.toList ≠ ['.', '.'] := by
  simp [isPlain, and_assoc]

namespace Component

theorem ofParts_append {name : String} (h : isPlain name = true) (absolute : Bool)
    (parts : List (List Char)) :
    ofParts absolute (parts ++ [name.toList]) = ofParts absolute parts ++ [.Normal name.toList] := by
  obtain ⟨_, _, hdot, hdots⟩ := isPlain_iff.mp h
  have hinner : (parts ++ [name.toList]).filter (fun part => part ≠ ['.'])
      = parts.filter (fun part => part ≠ ['.']) ++ [name.toList] := by
    simp [List.filter_append, hdot]
  have hpart : ofPart name.toList = .Normal name.toList := if_neg hdots
  have hhead : (parts ++ [name.toList]).head? = some ['.'] ↔ parts.head? = some ['.'] := by
    cases parts <;> simp [hdot]
  rw [ofParts, ofParts, hinner, List.map_append, List.map_singleton, hpart]
  cases absolute with
  | true => rfl
  | false =>
    simp only [Bool.false_eq_true, if_false]
    by_cases hfirst : parts.head? = some ['.']
    · rw [if_pos (hhead.mpr hfirst), if_pos hfirst]
      rfl
    · rw [if_neg (fun hlast => hfirst (hhead.mp hlast)), if_neg hfirst]

end Component

namespace FilePath

theorem not_isAbsolute_of_plain {name : String} (h : isPlain name = true) :
    (⟨name⟩ : FilePath).isAbsolute = false := by
  obtain ⟨_, hslash, _⟩ := isPlain_iff.mp h
  rw [isAbsolute, decide_eq_false_iff_not]
  intro hhead
  exact hslash (List.mem_of_mem_head? hhead)

theorem parts_of_plain {name : String} (h : isPlain name = true) :
    ((name.toList.splitOn '/').filter fun part => part ≠ []) = [name.toList] := by
  obtain ⟨hempty, hslash, _⟩ := isPlain_iff.mp h
  rw [List.splitOn_eq_singleton hslash]
  simp [hempty]

/-- The parts of a path that goes on with a plain name after a separator. -/
theorem parts_append_slash {name : String} (h : isPlain name = true) (base : List Char) :
    ((base ++ '/' :: name.toList).splitOn '/').filter (fun part => part ≠ [])
      = ((base.splitOn '/').filter fun part => part ≠ []) ++ [name.toList] := by
  rw [List.splitOn_append_cons_self, List.filter_append, parts_of_plain h]

/-- Joining a plain name adds one component. -/
theorem components_join (path : FilePath) {name : String} (h : isPlain name = true) :
    (path.join ⟨name⟩).components = path.components ++ [.Normal name.toList] := by
  obtain ⟨hempty, hslash, _⟩ := isPlain_iff.mp h
  have hrelative := not_isAbsolute_of_plain h
  rw [join, hrelative, if_neg Bool.false_ne_true]
  by_cases hend : path.text.toList = [] ∨ path.text.toList.getLast? = some '/'
  · rw [if_pos hend]
    rcases hend with hnone | hlast
    · have hparts : (⟨path.text ++ name⟩ : FilePath).parts = path.parts ++ [name.toList] := by
        have hbase : path.parts = [] := by simp [parts, hnone]
        rw [hbase, parts, String.toList_append, hnone]
        exact parts_of_plain h
      have habsolute : (⟨path.text ++ name⟩ : FilePath).isAbsolute = path.isAbsolute := by
        have hbase : path.isAbsolute = false := by simp [isAbsolute, hnone]
        rw [hbase, ← hrelative, isAbsolute, isAbsolute, String.toList_append, hnone]
        rfl
      rw [components, components, hparts, habsolute, Component.ofParts_append h]
    · obtain ⟨base, hbase⟩ := List.getLast?_eq_some_iff.mp hlast
      have hparts : (⟨path.text ++ name⟩ : FilePath).parts = path.parts ++ [name.toList] := by
        have hsplit := parts_append_slash h base
        have hslashEnd : ((base ++ ['/']).splitOn '/').filter (fun part => part ≠ [])
            = (base.splitOn '/').filter fun part => part ≠ [] := by
          rw [List.splitOn_append_cons_self]
          simp
        rw [parts, parts, String.toList_append, hbase, hslashEnd, List.append_assoc]
        exact hsplit
      have habsolute : (⟨path.text ++ name⟩ : FilePath).isAbsolute = path.isAbsolute := by
        rw [isAbsolute, isAbsolute, String.toList_append, hbase]
        cases base <;> rfl
      rw [components, components, hparts, habsolute, Component.ofParts_append h]
  · rw [if_neg hend]
    obtain ⟨hnonempty, _⟩ := not_or.mp hend
    have htext : (path.text ++ "/" ++ name).toList = path.text.toList ++ '/' :: name.toList := by
      simp
    have hparts : (⟨path.text ++ "/" ++ name⟩ : FilePath).parts
        = path.parts ++ [name.toList] := by
      rw [parts, parts, htext]
      exact parts_append_slash h _
    have habsolute : (⟨path.text ++ "/" ++ name⟩ : FilePath).isAbsolute = path.isAbsolute := by
      rw [isAbsolute, isAbsolute, htext]
      cases hchars : path.text.toList with
      | nil => exact absurd hchars hnonempty
      | cons => rfl
    rw [components, components, hparts, habsolute, Component.ofParts_append h]

theorem not_mem_of_mem_splitOn {text part : List Char} {c : Char} (h : part ∈ text.splitOn c) :
    c ∉ part := by
  induction text generalizing part with
  | nil =>
    rw [List.splitOn_nil, List.mem_singleton] at h
    rw [h]
    exact List.not_mem_nil
  | cons d text ih =>
    rw [List.splitOn_cons_eq_if_modifyHead] at h
    by_cases hd : d = c
    · rw [if_pos (beq_iff_eq.mpr hd), List.mem_cons] at h
      rcases h with rfl | hmem
      · exact List.not_mem_nil
      · exact ih hmem
    · rw [if_neg fun hbeq => hd (beq_iff_eq.mp hbeq)] at h
      obtain ⟨first, rest, hsplit⟩ := List.exists_cons_of_ne_nil (List.splitOn_ne_nil c text)
      rw [hsplit, List.modifyHead_cons, List.mem_cons] at h
      rcases h with rfl | hmem
      · intro hc
        rcases List.mem_cons.mp hc with heq | hfirst
        · exact hd heq.symm
        · exact ih (hsplit ▸ List.mem_cons_self) hfirst
      · exact ih (hsplit ▸ List.mem_cons_of_mem _ hmem)

/-- Repeated separators, a `.` inside and a separator at the end do not count. -/
example : (⟨"./cache//git/./rules/"⟩ : FilePath).components
    = [.CurDir, .Normal "cache".toList, .Normal "git".toList, .Normal "rules".toList] := by
  decide

end FilePath

end Stiles
