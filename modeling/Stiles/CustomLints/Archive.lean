import Stiles.CustomLints.Commands
import Stiles.General.Text
import Stiles.Types.PathComponents

/-
  Archives of prebuilt libraries (`archive.rs`).

  A tar reader gives the entries of an archive in order, and may fail at any of them. `extract`
  writes the regular files at the root, so a later one of the same name replaces an earlier one.
  `rootFiles` is what an archive holds there.

  * `extract_eq_ok`: a successful unpacking writes these files, in the order of the archive.
-/

namespace Stiles

open Crash (Prog)

/-! ## Digests -/

structure Sha256Digest where
  bytes : Vector UInt8 32
deriving DecidableEq, Repr

def Sha256Digest.display (digest : Sha256Digest) : String :=
  String.ofList (digest.bytes.toList.flatMap fun byte => Text.hexFixed 2 byte.toNat)

/-- The digest that a sidecar publishes: its first word. `decodeHex` reads 64 digits. -/
def Sha256Digest.fromSidecar (decodeHex : String → AnyhowResult Sha256Digest) (contents : String) :
    AnyhowResult Sha256Digest :=
  match ((contents.toList.splitOnP Text.isWhitespace).filter fun word => word ≠ []).head? with
  | none => .error (.msg "the sidecar is empty")
  | some word =>
    let digest := String.ofList word
    if digest.utf8ByteSize ≠ 64 then
      .error (.msg ("the sidecar holds " ++ digest.utf8ByteSize.repr ++
        " characters where a SHA-256 digest has 64"))
    else
      withContext "the sidecar holds something that is not a SHA-256 digest"
        (decodeHex digest.toLower)

/-! ## Archives -/

/-- The name of the archive while it is checked. -/
def DOWNLOAD : String := "archive.tar.gz"

inductive EntryType where
  | Regular
  | Link
  | Symlink
  | Char
  | Block
  | Directory
  | Fifo
  | Continuous
  | Other (byte : UInt8)
deriving DecidableEq, Repr

structure TarEntry where
  entryType : EntryType
  /-- One character for each byte of the name. -/
  path : AnyhowResult FilePath
  contents : AnyhowResult ByteArray

/-- The name of `path` if it names a file at the root of an archive. -/
def rootFileName (path : FilePath) : Option String :=
  match path.components with
  | [.Normal name] => some (String.ofList name)
  | _ => none

/-- The name that an entry is unpacked to, or `none` if it is skipped. -/
def unpackTarget (archive : FilePath) (entry : TarEntry) : AnyhowResult (Option String) :=
  if entry.entryType ≠ .Regular then .ok none
  else
    (withContext ("failed to read a file name from " ++ archive.text) entry.path).map rootFileName

/-- The libraries that read a downloaded file, of which they see the contents. -/
structure Codecs where
  /-- The entries of a compressed archive, in order. -/
  untar : String → AnyhowResult (List (AnyhowResult TarEntry))
  sha256 : String → Sha256Digest
  /-- A digest in 64 lower case digits. -/
  decodeHex : String → AnyhowResult Sha256Digest

namespace Fs

variable {ε : Type*}

def extractEntry (disk : Disk) (archive directory : FilePath) (entry : AnyhowResult TarEntry) :
    Fs ε Unit := do
  let entry ← Prog.lift (withContext ("failed to read " ++ archive.text) entry)
  let target ← Prog.lift (unpackTarget archive entry)
  match target with
  | none => pure ()
  | some name =>
    context ("failed to write " ++ (directory.join ⟨name⟩).text)
      (writeFile disk directory name entry.contents)

/-- Unpacks the archive `name` of a directory into the directory. -/
def extract (codecs : Codecs) (disk : Disk) (directory : FilePath) (name : String) : Fs ε Unit := do
  let archive := directory.join ⟨name⟩
  let contents ← context ("failed to open " ++ archive.text) (readFile directory name)
  let tar ← Prog.lift (withContext ("failed to read " ++ archive.text) (codecs.untar contents))
  Prog.each (extractEntry disk archive directory) tar

end Fs

namespace DirEffect

def extractEntry (archive directory : FilePath) (entry : AnyhowResult TarEntry) :
    DirEffect Unit := do
  let entry ← query fun _ => withContext ("failed to read " ++ archive.text) entry
  let target ← query fun _ => unpackTarget archive entry
  match target with
  | none => query fun _ => .ok ()
  | some name =>
    context ("failed to write " ++ (directory.join ⟨name⟩).text) (writeFile name entry.contents)

def extract (codecs : Codecs) (directory : FilePath) (name : String) : DirEffect Unit := do
  let archive := directory.join ⟨name⟩
  let contents ← context ("failed to open " ++ archive.text) (query fun entries =>
    fileIn entries name)
  let tar ← query fun _ => withContext ("failed to read " ++ archive.text) (codecs.untar contents)
  tar.forM (extractEntry archive directory)

end DirEffect

namespace Fs.Implements

variable {ε : Type*} {files : Files} {path : FilePath} {owner : Option Nat}

theorem extractEntry (disk : Disk) (archive : FilePath) (entry : AnyhowResult TarEntry) :
    Implements files path owner (Fs.extractEntry disk archive path entry : Fs ε Unit)
      (DirEffect.extractEntry archive path entry) := by
  refine bind (lift _) fun entry => bind (lift _) fun target => ?_
  cases target with
  | none => exact lift (.ok ())
  | some name => exact context (writeFile disk name entry.contents)

theorem extract (codecs : Codecs) (disk : Disk) (name : String) :
    Implements files path owner (Fs.extract codecs disk path name : Fs ε Unit)
      (DirEffect.extract codecs path name) :=
  bind (context (readFile name)) fun _ => bind (lift _) fun tar =>
    each (extractEntry disk _) tar

end Fs.Implements

/-! ## The files at the root -/

/-- The name of the file at the root that an entry is, if it is one. -/
def rootName (entry : TarEntry) : Option String :=
  if entry.entryType = .Regular then entry.path.toOption.bind rootFileName else none

def rootFile (entry : TarEntry) : Option DirEntry :=
  (rootName entry).bind fun name => entry.contents.toOption.map fun contents =>
    { name, isFile := true, contents := fileContents contents }

/-- The files at the root of an archive, where the last one of a name counts. -/
def rootFiles (tar : List TarEntry) : List DirEntry :=
  (tar.filterMap rootFile).foldl putEntry []

variable {archive directory : FilePath} {entries entries' : List DirEntry}

theorem unpackTarget_eq_ok {entry : TarEntry} {target : Option String}
    (h : unpackTarget archive entry = .ok target) : target = rootName entry := by
  rw [unpackTarget] at h
  rw [rootName]
  by_cases hregular : entry.entryType = .Regular
  · rw [if_neg (not_not.mpr hregular)] at h
    rw [if_pos hregular]
    cases hpath : entry.path with
    | error e =>
      rw [hpath] at h
      cases h
    | ok path =>
      rw [hpath] at h
      exact (Except.ok.inj h).symm
  · rw [if_pos hregular] at h
    rw [if_neg hregular]
    exact (Except.ok.inj h).symm

/-- A file at the root has contents that can be read. -/
def Readable (entry : TarEntry) : Prop :=
  ∀ name, rootName entry = some name → ∃ bytes, entry.contents = .ok bytes

theorem extractEntry_eq_ok {entry : AnyhowResult TarEntry}
    (h : DirEffect.extractEntry archive directory entry entries = .ok ((), entries')) :
    ∃ plain, entry = .ok plain ∧ Readable plain ∧
      entries' = ((rootFile plain).map (putEntry entries)).getD entries := by
  obtain ⟨plain, between, hentry, hrest⟩ := DirEffect.bind_eq_ok.mp h
  obtain ⟨hplain, rfl⟩ := DirEffect.query_eq_ok.mp hentry
  obtain ⟨target, between', htarget, hwrite⟩ := DirEffect.bind_eq_ok.mp hrest
  obtain ⟨hname, rfl⟩ := DirEffect.query_eq_ok.mp htarget
  refine ⟨plain, withContext_eq_ok.mp hplain, ?_⟩
  rw [Readable, rootFile, ← unpackTarget_eq_ok hname]
  cases target with
  | none =>
    refine ⟨fun _ h => ?_, (DirEffect.query_eq_ok.mp hwrite).2⟩
    cases h
  | some name =>
    obtain ⟨bytes, hbytes, hentries⟩ := DirEffect.writeFile_eq_ok.mp
      (DirEffect.context_eq_ok.mp hwrite)
    refine ⟨fun _ _ => ⟨bytes, hbytes⟩, ?_⟩
    rw [hbytes]
    exact hentries

/-- A successful unpacking reads every entry and writes the files at the root, in order. -/
theorem forM_extractEntry_eq_ok {tar : List (AnyhowResult TarEntry)}
    (h : tar.forM (DirEffect.extractEntry archive directory) entries = .ok ((), entries')) :
    ∃ plain : List TarEntry, tar = plain.map .ok ∧ (∀ entry ∈ plain, Readable entry) ∧
      entries' = (plain.filterMap rootFile).foldl putEntry entries := by
  induction tar generalizing entries with
  | nil =>
    exact ⟨[], rfl, fun _ h => absurd h List.not_mem_nil, (Prod.mk.inj (Except.ok.inj h)).2.symm⟩
  | cons entry tar ih =>
    obtain ⟨_, next, hentry, hrest⟩ := DirEffect.bind_eq_ok.mp h
    obtain ⟨plain, rfl, hreadable, hnext⟩ := extractEntry_eq_ok hentry
    obtain ⟨rest, rfl, hreadables, hentries⟩ := ih hrest
    refine ⟨plain :: rest, rfl, List.forall_mem_cons.mpr ⟨hreadable, hreadables⟩, ?_⟩
    rw [hentries, hnext, List.filterMap_cons]
    cases rootFile plain with
    | none => rfl
    | some file => rfl

theorem extract_eq_ok {codecs : Codecs} {name : String}
    (h : DirEffect.extract codecs directory name entries = .ok ((), entries')) :
    ∃ (contents : String) (plain : List TarEntry), fileIn entries name = .ok contents ∧
      codecs.untar contents = .ok (plain.map .ok) ∧ (∀ entry ∈ plain, Readable entry) ∧
      entries' = (plain.filterMap rootFile).foldl putEntry entries := by
  obtain ⟨contents, between, hread, hrest⟩ := DirEffect.bind_eq_ok.mp h
  obtain ⟨hcontents, rfl⟩ := DirEffect.query_eq_ok.mp (DirEffect.context_eq_ok.mp hread)
  obtain ⟨tar, between', htar, heach⟩ := DirEffect.bind_eq_ok.mp hrest
  obtain ⟨huntar, rfl⟩ := DirEffect.query_eq_ok.mp htar
  obtain ⟨plain, rfl, hreadable, hentries⟩ := forM_extractEntry_eq_ok heach
  exact ⟨contents, plain, hcontents, withContext_eq_ok.mp huntar, hreadable, hentries⟩

/-- Files of some names are the same whatever files of other names stand beside them. -/
theorem filter_foldl_putEntry (p : String → Bool) (files : List DirEntry)
    (h : entries.filter (fun file => p file.name) = entries'.filter fun file => p file.name) :
    (files.foldl putEntry entries).filter (fun file => p file.name)
      = (files.foldl putEntry entries').filter fun file => p file.name := by
  induction files generalizing entries entries' with
  | nil => exact h
  | cons file files ih =>
    refine ih ?_
    have hcomm : ∀ l : List DirEntry, (putEntry l file).filter (fun file => p file.name)
        = (l.filter fun file => p file.name).filter (fun other => other.name ≠ file.name) ++
          [file].filter fun file => p file.name := by
      intro l
      rw [putEntry, List.filter_append, List.filter_filter, List.filter_filter]
      congr 1
      refine List.filter_congr fun other _ => ?_
      exact Bool.and_comm _ _
    rw [hcomm, hcomm, h]

/-- The archive itself stands in the directory while it is unpacked, and is removed after that. -/
theorem rootFiles_subset {tar : List TarEntry} {file : DirEntry} (body : String)
    (hname : file.name ≠ DOWNLOAD) (h : file ∈ rootFiles tar) :
    file ∈ ((tar.filterMap rootFile).foldl putEntry [⟨DOWNLOAD, true, body⟩]).filter
      fun file => file.name ≠ DOWNLOAD := by
  have hsame := filter_foldl_putEntry (fun name => name ≠ DOWNLOAD) (tar.filterMap rootFile)
    (show [(⟨DOWNLOAD, true, body⟩ : DirEntry)].filter (fun file => file.name ≠ DOWNLOAD)
      = [].filter fun file => file.name ≠ DOWNLOAD by simp)
  rw [hsame, List.mem_filter]
  exact ⟨h, decide_eq_true hname⟩

end Stiles
