import Mathlib.Logic.Function.Basic
import Stiles.General.SharedSlot
import Stiles.Types.FilePath

/-
  The file system under the cache of lint sources (`cache.rs`, `std::fs`).

  A run assembles a directory in a staging directory of its own, whose name carries the process id
  (`stagingDirectory`), and renames it onto the destination that all runs share. `Files` holds the
  directories beside each other in the cache, by their path. The owner of a directory is the process
  that assembled it.

  Each operation here is one step of the file system. `none` means that the step cannot be taken.
-/

namespace Stiles

/-- An entry of a directory, named by its path from the directory. -/
structure DirEntry where
  name : String
  isFile : Bool
  contents : String
deriving DecidableEq, Repr

abbrev Directory := SharedSlot.Directory DirEntry

abbrev Files := FilePath → Option Directory

/-- The directory a run assembles in, beside the destination. -/
def stagingDirectory (destination : FilePath) (pid : Nat) : FilePath :=
  ⟨destination.text ++ ("." ++ pid.repr ++ ".partial")⟩

/-! ## Whose directory a path is -/

/-- Processes with distinct ids assemble in distinct directories. -/
theorem stagingDirectory_inj {destination : FilePath} {pid pid' : Nat}
    (h : stagingDirectory destination pid = stagingDirectory destination pid') : pid = pid' := by
  unfold stagingDirectory at h
  rw [FilePath.mk.injEq, String.append_right_inj, String.append_left_inj,
    String.append_right_inj] at h
  have hdigits := congrArg String.toList h
  rw [Nat.toList_repr, Nat.toList_repr] at hdigits
  rw [← Nat.ofDigitChars_toDigits (b := 10) (n := pid) (by decide) (by decide), hdigits,
    Nat.ofDigitChars_toDigits (by decide) (by decide)]

theorem stagingDirectory_ne (destination : FilePath) (pid : Nat) :
    stagingDirectory destination pid ≠ destination := by
  intro h
  have hlength := congrArg (fun path => path.text.length) h
  simp [stagingDirectory] at hlength

namespace Files

def set (files : Files) (path : FilePath) (directory : Option Directory) : Files :=
  Function.update files path directory

@[simp] theorem set_same (files : Files) (path : FilePath) (directory : Option Directory) :
    files.set path directory path = directory :=
  Function.update_self ..

theorem set_other (files : Files) {path other : FilePath} (directory : Option Directory)
    (h : other ≠ path) : files.set path directory other = files other :=
  Function.update_of_ne h ..

/-- One removal step of `remove_dir_all`: it takes out an entry that is there. -/
def unlink (files : Files) (path : FilePath) (name : String) : Option Files :=
  match files path with
  | none => none
  | some directory =>
    if directory.entries.any fun entry => entry.name = name then
      some (files.set path (some { directory with
        entries := directory.entries.filter fun entry => entry.name ≠ name }))
    else none

/-- The last removal step of `remove_dir_all`. A directory that is gone already is as good as
    removed. -/
def rmdir (files : Files) (path : FilePath) : Option Files :=
  match files path with
  | none => some files
  | some directory => if directory.entries.isEmpty then some (files.set path none) else none

/-- `rename` of a directory: possible if nothing is at the target but an empty directory. -/
def rename (files : Files) (source target : FilePath) : Option Files :=
  match files source with
  | none => none
  | some directory =>
    match files target with
    | none => some ((files.set source none).set target (some directory))
    | some present =>
      if present.entries.isEmpty then
        some ((files.set source none).set target (some directory))
      else none

/-! ## What a step changes -/

theorem unlink_eq_some {files files' : Files} {path : FilePath} {name : String}
    (h : files.unlink path name = some files') :
    ∃ directory, files path = some directory ∧
      files' = files.set path (some { directory with
        entries := directory.entries.filter fun entry => entry.name ≠ name }) := by
  unfold unlink at h
  split at h
  · cases h
  · rename_i directory hdirectory
    split at h
    · exact ⟨directory, hdirectory, (Option.some.inj h).symm⟩
    · cases h

/-- The directory is gone after its last removal step, and it was empty or gone before. -/
theorem rmdir_eq_some {files files' : Files} {path : FilePath}
    (h : files.rmdir path = some files') :
    (∀ directory, files path = some directory → directory.entries = []) ∧
      files' = files.set path none := by
  unfold rmdir at h
  split at h
  · rename_i hgone
    refine ⟨by simp [hgone], ?_⟩
    rw [← Option.some.inj h, set, ← hgone, Function.update_eq_self]
  · rename_i directory hdirectory
    split at h
    · rename_i hempty
      refine ⟨?_, (Option.some.inj h).symm⟩
      rintro present hpresent
      rw [hdirectory, Option.some.injEq] at hpresent
      rw [← hpresent]
      exact List.isEmpty_iff.mp hempty
    · cases h

theorem rename_eq_some {files files' : Files} {source target : FilePath}
    (h : files.rename source target = some files') :
    ∃ directory, files source = some directory ∧
      (∀ present, files target = some present → present.entries = []) ∧
      files' = (files.set source none).set target (some directory) := by
  unfold rename at h
  split at h
  · cases h
  · rename_i directory hdirectory
    split at h
    · rename_i hfree
      exact ⟨directory, hdirectory, by simp [hfree], (Option.some.inj h).symm⟩
    · rename_i there hthere
      split at h
      · rename_i hempty
        refine ⟨directory, hdirectory, ?_, (Option.some.inj h).symm⟩
        rintro present hpresent
        rw [hthere, Option.some.injEq] at hpresent
        rw [← hpresent]
        exact List.isEmpty_iff.mp hempty
      · cases h

end Files

end Stiles
