import Mathlib.Data.List.Dedup
import Stiles.CustomLints.Cache
import Stiles.General.Crash
import Stiles.Types.Errors

/-
  The file system calls of an installation (`std::fs`), as programs that can be cut off.

  A call works on one directory, and each of its effects is a step: `remove_dir_all` takes out one
  entry after the other, and a file is written bit by bit. A `Disk` is what a run cannot know of
  this. A call fails only where it cannot be carried out.

  The specifications here say that a call at `path` changes nothing but the directory at `path`
  (`Around`), which holds wherever it is cut off.
-/

namespace Stiles

open Crash (Prog Triple)

/-- The contents of a file, one character for each byte. -/
def fileContents (bytes : ByteArray) : String :=
  String.ofList (bytes.data.toList.map Char.ofUInt8)

/-- The entries of a directory after a file is written: a file of the same name is replaced. -/
def putEntry (entries : List DirEntry) (entry : DirEntry) : List DirEntry :=
  entries.filter (fun other => other.name ≠ entry.name) ++ [entry]

/-- A program over the file system. -/
abbrev Fs (ε : Type*) := Prog Files ε Anyhow

/-- The process of a run, and what depends on neither the run nor its files: the order in which a
    directory is emptied, and what a file holds while it is written. -/
structure Disk where
  pid : Nat
  order : List String → List String
  order_perm : ∀ names, (order names).Perm names
  partials : String → List String

/-! ## Files of one name -/

section

variable {entries : List DirEntry}

/-- The first of two files of one name does not count. -/
theorem putEntry_putEntry (first second : DirEntry) (h : first.name = second.name) :
    putEntry (putEntry entries first) second = putEntry entries second := by
  simp [putEntry, List.filter_append, List.filter_filter, h]

end

namespace Files

@[simp] theorem set_set (files : Files) (path : FilePath) (directory directory' : Option Directory) :
    (files.set path directory).set path directory' = files.set path directory' :=
  Function.update_idem ..

theorem set_self (files : Files) (path : FilePath) : files.set path (files path) = files :=
  Function.update_eq_self ..

end Files

/-! ## Entries -/

def noSuchFile : Anyhow := .msg "No such file or directory (os error 2)"

def notEmpty : Anyhow := .msg "Directory not empty (os error 39)"

/-- The contents of the file `name` among these entries. -/
def fileIn (entries : List DirEntry) (name : String) : AnyhowResult String :=
  match entries.find? fun entry => entry.name = name with
  | none => .error noSuchFile
  | some file => .ok file.contents

theorem fileIn_putEntry_same (entries : List DirEntry) (file : DirEntry) :
    fileIn (putEntry entries file) file.name = .ok file.contents := by
  have hnone : (entries.filter fun other => other.name ≠ file.name).find?
      (fun entry => entry.name = file.name) = none := by
    simp
  rw [fileIn, putEntry, List.find?_append, hnone]
  simp

/-- What a program makes of the entries of one directory. -/
abbrev DirEffect := StateT (List DirEntry) (Except Anyhow)

namespace DirEffect

def query {α : Type} (f : List DirEntry → AnyhowResult α) : DirEffect α := fun entries =>
  (f entries).map fun a => (a, entries)

def call (e : Anyhow) (f : List DirEntry → Option (List DirEntry)) : DirEffect Unit := fun entries =>
  match f entries with
  | none => .error e
  | some entries => .ok ((), entries)

def ensure (condition : Bool) (e : Anyhow) : DirEffect Unit :=
  query fun _ => if condition then .ok () else .error e

def context {α : Type} (message : String) (d : DirEffect α) : DirEffect α := fun entries =>
  withContext message (d entries)

def put (name contents : String) : DirEffect Unit :=
  call noSuchFile fun entries => some (putEntry entries { name, isFile := true, contents })

def removeFile (name : String) : DirEffect Unit :=
  call noSuchFile fun entries =>
    if entries.any fun entry => entry.name = name then
      some (entries.filter fun entry => entry.name ≠ name)
    else none

/-- A file as it is in the end. -/
def writeFile (name : String) (contents : AnyhowResult ByteArray) : DirEffect Unit :=
  query (fun _ => contents) >>= fun bytes => put name (fileContents bytes)

section

variable {α β : Type} {d : DirEffect α} {entries entries' : List DirEntry}

theorem bind_eq_ok {g : α → DirEffect β} {b : β} : (d >>= g) entries = .ok (b, entries') ↔
    ∃ a between, d entries = .ok (a, between) ∧ g a between = .ok (b, entries') := by
  have hbind : (d >>= g) entries = d entries >>= fun v => g v.1 v.2 := rfl
  rw [hbind]
  cases h : d entries with
  | error e => exact ⟨nofun, fun ⟨_, _, hd, _⟩ => nomatch hd⟩
  | ok v =>
    constructor
    · intro hg
      exact ⟨v.1, v.2, rfl, hg⟩
    · rintro ⟨a, between, hd, hg⟩
      cases hd
      exact hg

theorem query_eq_ok {f : List DirEntry → AnyhowResult α} {a : α} :
    query f entries = .ok (a, entries') ↔ f entries = .ok a ∧ entries' = entries := by
  rw [query]
  cases f entries with
  | error e => exact ⟨nofun, fun h => nomatch h.1⟩
  | ok b => simp [Except.map, eq_comm]

theorem context_eq_ok {message : String} {a : α} :
    context message d entries = .ok (a, entries') ↔ d entries = .ok (a, entries') :=
  withContext_eq_ok

theorem ensure_eq_ok {condition : Bool} {e : Anyhow} :
    ensure condition e entries = .ok ((), entries') ↔ condition = true ∧ entries' = entries := by
  rw [ensure, query_eq_ok]
  cases condition <;> simp

theorem query_bind_eq_ok {f : List DirEntry → AnyhowResult α} {g : α → DirEffect β} {b : β} :
    (query f >>= g) entries = .ok (b, entries') ↔
      ∃ a, f entries = .ok a ∧ g a entries = .ok (b, entries') := by
  rw [bind_eq_ok]
  constructor
  · rintro ⟨a, between, hf, hg⟩
    obtain ⟨ha, rfl⟩ := query_eq_ok.mp hf
    exact ⟨a, ha, hg⟩
  · rintro ⟨a, hf, hg⟩
    exact ⟨a, entries, query_eq_ok.mpr ⟨hf, rfl⟩, hg⟩

theorem ensure_bind_eq_ok {condition : Bool} {e : Anyhow} {g : Unit → DirEffect β} {b : β} :
    (ensure condition e >>= g) entries = .ok (b, entries') ↔
      condition = true ∧ g () entries = .ok (b, entries') := by
  rw [ensure, query_bind_eq_ok]
  cases condition with
  | false => simp
  | true => exact ⟨fun ⟨_, _, hg⟩ => ⟨rfl, hg⟩, fun h => ⟨(), rfl, h.2⟩⟩

theorem removeFile_eq_ok {name : String} (h : removeFile name entries = .ok ((), entries')) :
    entries' = entries.filter fun entry => entry.name ≠ name := by
  rw [removeFile, call] at h
  by_cases hany : (entries.any fun entry => entry.name = name) = true
  · simp only [hany, if_true] at h
    exact (Prod.mk.inj (Except.ok.inj h)).2.symm
  · simp only [hany] at h
    cases h

theorem writeFile_eq_ok {name : String} {contents : AnyhowResult ByteArray} :
    writeFile name contents entries = .ok ((), entries') ↔
      ∃ bytes, contents = .ok bytes ∧ entries' =
        putEntry entries { name, isFile := true, contents := fileContents bytes } := by
  cases contents with
  | error e => exact ⟨nofun, fun ⟨_, h, _⟩ => nomatch h⟩
  | ok bytes =>
    constructor
    · intro h
      exact ⟨bytes, rfl, (Prod.mk.inj (Except.ok.inj h)).2.symm⟩
    · rintro ⟨_, hbytes, rfl⟩
      rw [← Except.ok.inj hbytes]
      rfl

end

end DirEffect

/-! ## The calls -/

namespace Fs

variable {ε : Type*}

/-- A step of the file system, where it is possible. -/
def call (e : Anyhow) (f : Files → Option Files) : Fs ε Unit :=
  Prog.step fun files => match f files with
    | none => .error e
    | some files => .ok files

def exists_ (path : FilePath) : Fs ε Bool :=
  Prog.read fun files => (files path).isSome

def entryNames (directory : Option Directory) : List String :=
  match directory with
  | none => []
  | some directory => (directory.entries.map DirEntry.name).dedup

def removeDirAll (disk : Disk) (path : FilePath) : Fs ε Unit := do
  let names ← Prog.read fun files => disk.order (entryNames (files path))
  Prog.each (fun name => call noSuchFile fun files => files.unlink path name) names
  call notEmpty fun files => files.rmdir path

/-- `create_dir_all`, where the directories above are there already. -/
def createDirAll (disk : Disk) (path : FilePath) : Fs ε Unit :=
  call noSuchFile fun files => match files path with
    | some _ => some files
    | none => some (files.set path (some { owner := some disk.pid, entries := [] }))

/-- Writes a file, or a part of it. -/
def put (path : FilePath) (name contents : String) : Fs ε Unit :=
  call noSuchFile fun files => match files path with
    | none => none
    | some directory => some (files.set path (some { directory with
        entries := putEntry directory.entries { name, isFile := true, contents } }))

/-- Writes a file whose contents may turn out not to be readable. -/
def writeFile (disk : Disk) (path : FilePath) (name : String) (contents : AnyhowResult ByteArray) :
    Fs ε Unit := do
  Prog.each (put path name) (disk.partials name)
  let contents ← Prog.lift contents
  put path name (fileContents contents)

def readFile (path : FilePath) (name : String) : Fs ε String :=
  Prog.query fun files => match files path with
    | none => .error noSuchFile
    | some directory => fileIn directory.entries name

def removeFile (path : FilePath) (name : String) : Fs ε Unit :=
  call noSuchFile fun files => files.unlink path name

def rename (source target : FilePath) : Fs ε Unit :=
  call notEmpty fun files => files.rename source target

/-- `with_context` on a call. -/
def context {α : Type} (message : String) (p : Fs ε α) : Fs ε α :=
  p.mapError (·.context message)

/-- Removes what is at `path`, if anything is. -/
def discard (disk : Disk) (path : FilePath) (message : String) : Fs ε Unit := do
  let there ← exists_ path
  if there then context message (removeDirAll disk path) else pure ()

/-! ## What a call changes -/

variable {files : Files} {path : FilePath} {C : Files → Prop}

/-- Nothing but the directory at `path` differs from `files`. -/
def Around (files : Files) (path : FilePath) (t : Files) : Prop :=
  ∃ directory, t = files.set path directory

theorem around_set (files : Files) (path : FilePath) (directory : Option Directory) :
    Around files path (files.set path directory) := ⟨directory, rfl⟩

theorem around_self (files : Files) (path : FilePath) : Around files path files :=
  ⟨files path, (files.set_self path).symm⟩

/-- A call that is possible. -/
theorem call_spec {e : Anyhow} {f : Files → Option Files} {P : Files → Prop}
    {Q : Except Anyhow Unit → Files → Prop}
    (h : ∀ s, P s → ∃ t, f s = some t ∧ Q (.ok ()) t ∧ C t) :
    Triple P (call e f : Fs ε Unit) Q C := by
  refine Triple.step fun s hs => ?_
  obtain ⟨t, ht, hend, hcut⟩ := h s hs
  exact ⟨t, by rw [ht], hend, hcut⟩

theorem context_spec {α : Type} {message : String} {p : Fs ε α} {P : Files → Prop}
    {Q : Except Anyhow α → Files → Prop}
    (h : Triple P p (fun r t => Q (withContext message r) t) C) :
    Triple P (context message p) Q C :=
  Triple.mapError h

theorem context_ok {α : Type} {message : String} {p : Fs ε α} {P R : Files → Prop} {a : α}
    (h : Triple P p (fun r t => r = .ok a ∧ R t) C) :
    Triple P (context message p) (fun r t => r = .ok a ∧ R t) C :=
  context_spec (h.mono_post fun _ _ hr => ⟨by rw [hr.1]; rfl, hr.2⟩)

theorem context_error {α : Type} {message : String} {p : Fs ε α} {P R : Files → Prop} {e : Anyhow}
    (h : Triple P p (fun r t => r = .error e ∧ R t) C) :
    Triple P (context message p) (fun r t => r = .error (e.context message) ∧ R t) C :=
  context_spec (h.mono_post fun _ _ hr => ⟨by rw [hr.1]; rfl, hr.2⟩)

/-! ## Removing -/

/-- What is left of a directory that is being emptied: the entries of these names. -/
def Left (files : Files) (path : FilePath) (owner : Option Nat) (names : List String)
    (t : Files) : Prop :=
  ∃ entries, t = files.set path (some ⟨owner, entries⟩) ∧ names.Nodup ∧
    ∀ name, name ∈ names ↔ ∃ entry ∈ entries, entry.name = name

theorem left_entryNames (disk : Disk) (files : Files) (path : FilePath) (directory : Directory) :
    Left files path directory.owner (disk.order (entryNames (some directory)))
      (files.set path (some directory)) := by
  have hperm := disk.order_perm (entryNames (some directory))
  refine ⟨directory.entries, rfl, hperm.nodup_iff.mpr (List.nodup_dedup _), ?_⟩
  intro name
  rw [hperm.mem_iff, entryNames, List.mem_dedup, List.mem_map]

theorem unlink_left {owner : Option Nat} {name : String} {names : List String} {t : Files}
    (h : Left files path owner (name :: names) t) :
    ∃ t', t.unlink path name = some t' ∧ Left files path owner names t' := by
  obtain ⟨entries, rfl, hnodup, hnames⟩ := h
  obtain ⟨hfresh, hrest⟩ := List.nodup_cons.mp hnodup
  obtain ⟨entry, hentry, hname⟩ := (hnames name).mp List.mem_cons_self
  have hany : (entries.any fun entry => entry.name = name) = true :=
    List.any_eq_true.mpr ⟨entry, hentry, decide_eq_true hname⟩
  refine ⟨_, ?_, entries.filter (fun entry => entry.name ≠ name), rfl, hrest, ?_⟩
  · rw [Files.unlink, Files.set_same]
    simp only [hany, if_true, Files.set_set]
  · intro other
    constructor
    · intro hother
      have hne : other ≠ name := fun heq => hfresh (heq ▸ hother)
      obtain ⟨entry, hentry, rfl⟩ := (hnames other).mp (List.mem_cons_of_mem _ hother)
      exact ⟨entry, List.mem_filter.mpr ⟨hentry, decide_eq_true hne⟩, rfl⟩
    · intro hother
      obtain ⟨entry, hentry, rfl⟩ := hother
      obtain ⟨hmem, hne⟩ := List.mem_filter.mp hentry
      rcases List.mem_cons.mp ((hnames entry.name).mpr ⟨entry, hmem, rfl⟩) with heq | hother
      · exact absurd heq (of_decide_eq_true hne)
      · exact hother

theorem rmdir_left {owner : Option Nat} {t : Files} (h : Left files path owner [] t) :
    t.rmdir path = some (files.set path none) := by
  obtain ⟨entries, rfl, _, hnames⟩ := h
  have hempty : entries = [] := by
    cases entries with
    | nil => rfl
    | cons entry entries =>
      have hname := (hnames entry.name).mpr ⟨entry, List.mem_cons_self, rfl⟩
      exact absurd hname List.not_mem_nil
  rw [hempty, Files.rmdir, Files.set_same]
  simp

/-- Removing a directory succeeds, in whichever order its entries go. -/
theorem removeDirAll_spec (disk : Disk) (files : Files) (path : FilePath) (directory : Directory) :
    Triple (fun t => t = files.set path (some directory)) (removeDirAll disk path : Fs ε Unit)
      (fun r t => r = .ok () ∧ t = files.set path none) (Around files path) := by
  refine Triple.bind (M := fun r t => r = .ok (disk.order (entryNames (some directory))) ∧
    t = files.set path (some directory)) ?_ ?_ nofun
  · refine Triple.read fun t ht => ?_
    rw [ht, Files.set_same]
    exact ⟨rfl, rfl⟩
  · intro names
    refine Triple.bind (M := fun r t => r = .ok () ∧ Left files path directory.owner [] t) ?_ ?_
      fun e t h => absurd h.1 nofun
    · refine (Triple.each (Left files path directory.owner) ?_ names).mono_pre ?_
      · intro name rest
        refine call_spec fun t ht => ?_
        obtain ⟨t', hunlink, hleft⟩ := unlink_left ht
        refine ⟨t', hunlink, ⟨rfl, hleft⟩, ?_⟩
        obtain ⟨entries, rfl, _⟩ := hleft
        exact around_set files path _
      · rintro t ⟨hnames, rfl⟩
        rw [Except.ok.inj hnames]
        exact left_entryNames disk files path directory
    · intro _
      refine call_spec fun t ht => ?_
      exact ⟨_, rmdir_left ht.2, ⟨rfl, rfl⟩, around_set files path none⟩

/-- What is in the way is removed. -/
theorem discard_spec (disk : Disk) (files : Files) (path : FilePath) (message : String) :
    Triple (Around files path) (discard disk path message : Fs ε Unit)
      (fun r t => r = .ok () ∧ t = files.set path none) (Around files path) := by
  refine Triple.read_bind fun there => ?_
  cases there with
  | false =>
    refine Triple.pure fun t ht => ?_
    obtain ⟨⟨directory, rfl⟩, hnone⟩ := ht
    rw [Files.set_same] at hnone
    rw [Option.isSome_eq_false_iff.mp hnone |> Option.isNone_iff_eq_none.mp]
    exact ⟨rfl, rfl⟩
  | true =>
    intro t ht
    obtain ⟨⟨directory, rfl⟩, hsome⟩ := ht
    rw [Files.set_same] at hsome
    obtain ⟨there, rfl⟩ := Option.isSome_iff_exists.mp hsome
    exact context_ok (removeDirAll_spec disk files path there) _ rfl

/-- Nothing is in the way. -/
theorem discard_absent (disk : Disk) (path : FilePath) (message : String) :
    Triple (fun t => t = files ∧ files path = none) (discard disk path message : Fs ε Unit)
      (fun r t => r = .ok () ∧ t = files) C := by
  refine Triple.read_bind_eq (a := false) ?_ (Triple.pure fun t ht => ⟨rfl, ht.1⟩)
  intro t ht
  obtain ⟨rfl, hnone⟩ := ht
  rw [hnone]
  rfl

theorem createDirAll_spec (disk : Disk) (files : Files) (path : FilePath) :
    Triple (fun t => t = files.set path none) (createDirAll disk path : Fs ε Unit)
      (fun r t => r = .ok () ∧ t = files.set path (some ⟨some disk.pid, []⟩))
      (Around files path) := by
  refine call_spec fun t ht => ?_
  rw [ht, Files.set_same, Files.set_set]
  exact ⟨_, rfl, ⟨rfl, rfl⟩, around_set files path _⟩

/-- A directory is moved to where nothing is, in one step. -/
theorem rename_spec (files : Files) (source target : FilePath) (directory : Directory)
    (hsource : files source = some directory) (htarget : files target = none)
    (hcut : C ((files.set source none).set target (some directory))) :
    Triple (fun t => t = files) (rename source target : Fs ε Unit)
      (fun r t => r = .ok () ∧ t = (files.set source none).set target (some directory)) C := by
  refine call_spec fun t ht => ?_
  rw [ht, Files.rename, hsource, htarget]
  exact ⟨_, rfl, ⟨rfl, rfl⟩, hcut⟩

/-! ## Work in one directory -/

/-- Nothing but the directory at `path` differs from `files`, and it is there. -/
def Within (files : Files) (path : FilePath) (owner : Option Nat) (t : Files) : Prop :=
  ∃ entries, t = files.set path (some ⟨owner, entries⟩)

theorem within_set (files : Files) (path : FilePath) (owner : Option Nat)
    (entries : List DirEntry) :
    Within files path owner (files.set path (some ⟨owner, entries⟩)) := ⟨entries, rfl⟩

theorem Within.around {owner : Option Nat} {t : Files} (h : Within files path owner t) :
    Around files path t := by
  obtain ⟨entries, rfl⟩ := h
  exact around_set files path _

theorem removeDirAll_within (disk : Disk) (files : Files) (path : FilePath) (owner : Option Nat) :
    Triple (Within files path owner) (removeDirAll disk path : Fs ε Unit)
      (fun r t => r = .ok () ∧ t = files.set path none) (Around files path) := by
  intro t ht
  obtain ⟨entries, hentries⟩ := ht
  exact removeDirAll_spec disk files path ⟨owner, entries⟩ t hentries

/-- The program works in the directory at `path` only, and has the result and the entries of `d`. -/
def Implements {α : Type} (files : Files) (path : FilePath) (owner : Option Nat) (p : Fs ε α)
    (d : DirEffect α) : Prop :=
  ∀ entries, Triple (fun t => t = files.set path (some ⟨owner, entries⟩)) p
    (fun r t => r = (d entries).map Prod.fst ∧ Within files path owner t ∧
      ∀ a entries', d entries = .ok (a, entries') → t = files.set path (some ⟨owner, entries'⟩))
    (Within files path owner)

namespace Implements

variable {α β : Type} {owner : Option Nat} {p : Fs ε α} {d : DirEffect α}

/-- A look at the directory. -/
theorem query {f : Files → AnyhowResult α} {g : List DirEntry → AnyhowResult α}
    (h : ∀ entries, f (files.set path (some ⟨owner, entries⟩)) = g entries) :
    Implements files path owner (Prog.query f : Fs ε α) (DirEffect.query g) := by
  intro entries
  refine Triple.query fun t ht => ?_
  rw [DirEffect.query, ht, h]
  refine ⟨by cases g entries <;> rfl, within_set files path owner _, ?_⟩
  intro a entries' heq
  cases hg : g entries with
  | error e =>
    rw [hg] at heq
    cases heq
  | ok b =>
    rw [hg] at heq
    rw [← (Prod.mk.inj (Except.ok.inj heq)).2]

theorem read {f : Files → α} {g : List DirEntry → α}
    (h : ∀ entries, f (files.set path (some ⟨owner, entries⟩)) = g entries) :
    Implements files path owner (Prog.read f : Fs ε α)
      (DirEffect.query fun entries => .ok (g entries)) :=
  query fun entries => congrArg Except.ok (h entries)

theorem lift (result : AnyhowResult α) :
    Implements files path owner (Prog.lift result : Fs ε α) (DirEffect.query fun _ => result) :=
  query fun _ => rfl

/-- One step, possible or not. -/
theorem call {e : Anyhow} {f : Files → Option Files} {g : List DirEntry → Option (List DirEntry)}
    (h : ∀ entries, f (files.set path (some ⟨owner, entries⟩))
      = (g entries).map fun entries' => files.set path (some ⟨owner, entries'⟩)) :
    Implements files path owner (Fs.call e f : Fs ε Unit) (DirEffect.call e g) := by
  intro entries t ht
  rw [ht, Fs.call, Prog.step, h entries, DirEffect.call]
  cases g entries with
  | none =>
    refine ⟨⟨rfl, within_set files path owner _, fun a entries' heq => ?_⟩, fun t ht => ?_⟩
    · cases heq
    · exact absurd ht List.not_mem_nil
  | some entries' =>
    refine ⟨⟨rfl, within_set files path owner _, ?_⟩, ?_⟩
    · intro _ entries'' heq
      rw [← (Prod.mk.inj (Except.ok.inj heq)).2]
      rfl
    · intro t ht
      rw [List.mem_singleton.mp ht]
      exact within_set files path owner _

theorem ensure (condition : Bool) (e : Anyhow) :
    Implements files path owner (Prog.ensure condition e : Fs ε Unit)
      (DirEffect.ensure condition e) :=
  lift _

theorem emit_bind {e : ε} {f : Unit → Fs ε α} (hf : Implements files path owner (f ()) d) :
    Implements files path owner (Prog.emit e >>= f) d :=
  fun entries => Triple.emit_bind (hf entries)

theorem bind {f : α → Fs ε β} {g : α → DirEffect β} (hp : Implements files path owner p d)
    (hf : ∀ a, Implements files path owner (f a) (g a)) :
    Implements files path owner (p >>= f) (d >>= g) := by
  intro entries
  have hbind : (d >>= g) entries = d entries >>= fun v => g v.1 v.2 := rfl
  rw [hbind]
  refine Triple.bind (hp entries) ?_ ?_
  · intro a t ht
    obtain ⟨hvalue, _, hstate⟩ := ht
    cases hd : d entries with
    | error e =>
      rw [hd] at hvalue
      cases hvalue
    | ok v =>
      obtain ⟨b, entries'⟩ := v
      rw [hd] at hvalue
      have hab : a = b := Except.ok.inj hvalue
      rw [← hab] at hd ⊢
      exact hf a entries' t (hstate _ _ hd)
  · intro e t ht
    obtain ⟨hvalue, hwithin, _⟩ := ht
    cases hd : d entries with
    | error e' =>
      rw [hd] at hvalue
      exact ⟨by rw [Except.error.inj hvalue]; rfl, hwithin, nofun⟩
    | ok v =>
      rw [hd] at hvalue
      cases hvalue

theorem context {message : String} (hp : Implements files path owner p d) :
    Implements files path owner (Fs.context message p) (DirEffect.context message d) := by
  intro entries
  refine context_spec ((hp entries).mono_post ?_)
  intro r t h
  obtain ⟨hvalue, hwithin, hstate⟩ := h
  refine ⟨?_, hwithin, fun a entries' hd => hstate a entries' (withContext_eq_ok.mp hd)⟩
  rw [hvalue, DirEffect.context]
  cases d entries <;> rfl

theorem each {f : β → Fs ε Unit} {g : β → DirEffect Unit}
    (hf : ∀ b, Implements files path owner (f b) (g b)) (bs : List β) :
    Implements files path owner (Prog.each f bs) (bs.forM g) := by
  induction bs with
  | nil => exact lift (.ok ())
  | cons b bs ih => exact bind (hf b) fun _ => ih

/-! ### The calls -/

theorem put (name contents : String) :
    Implements files path owner (Fs.put path name contents : Fs ε Unit)
      (DirEffect.put name contents) := by
  refine call fun entries => ?_
  rw [Files.set_same]
  exact congrArg some (Files.set_set ..)

theorem readFile (name : String) :
    Implements files path owner (Fs.readFile path name : Fs ε String)
      (DirEffect.query fun entries => fileIn entries name) := by
  refine query fun entries => ?_
  rw [Files.set_same]

theorem removeFile (name : String) :
    Implements files path owner (Fs.removeFile path name : Fs ε Unit)
      (DirEffect.removeFile name) := by
  refine call fun entries => ?_
  rw [Files.unlink, Files.set_same]
  by_cases hany : (entries.any fun entry => entry.name = name) = true
  · simp only [hany, if_true, Files.set_set, Option.map_some]
  · simp only [hany]
    rfl

/-- A file is written, whatever it held in between. -/
theorem writeFile (disk : Disk) (name : String) (contents : AnyhowResult ByteArray) :
    Implements files path owner (Fs.writeFile disk path name contents : Fs ε Unit)
      (DirEffect.writeFile name contents) := by
  intro entries
  -- Whatever a part of the file holds, the whole file replaces it.
  let I : List String → Files → Prop := fun _ t => ∃ entries',
    t = files.set path (some ⟨owner, entries'⟩) ∧
      ∀ contents, putEntry entries' ⟨name, true, contents⟩ = putEntry entries ⟨name, true, contents⟩
  have hparts : Triple (I (disk.partials name))
      (Prog.each (Fs.put path name) (disk.partials name) : Fs ε Unit)
      (fun r t => r = .ok () ∧ I [] t) (Within files path owner) := by
    refine Triple.each I ?_ _
    intro part rest t ht
    obtain ⟨entries', hentries', hsame⟩ := ht
    obtain ⟨⟨hr, _, hend⟩, htrail⟩ := put name part entries' t hentries'
    refine ⟨⟨hr, _, hend _ _ rfl, ?_⟩, htrail⟩
    intro contents
    rw [putEntry_putEntry ⟨name, true, part⟩ ⟨name, true, contents⟩ rfl, hsame]
  refine Triple.bind_ok (hparts.mono_pre fun t ht => ⟨entries, ht, fun _ => rfl⟩) ?_
  intro t ht
  obtain ⟨entries', hentries', hsame⟩ := ht
  have heffect : DirEffect.writeFile name contents entries'
      = DirEffect.writeFile name contents entries := by
    cases contents with
    | error e => rfl
    | ok bytes =>
      change Except.ok ((), putEntry entries' _) = Except.ok ((), putEntry entries _)
      rw [hsame]
  rw [← heffect]
  exact bind (lift contents) (fun bytes => put name (fileContents bytes)) entries' t hentries'

end Implements

end Fs

end Stiles
