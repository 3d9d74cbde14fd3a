import Mathlib.Data.List.Sort
import Stiles.CustomLints.Assemble

/-
  Prebuilt libraries (`prebuilt.rs`): any number of runs of `cached` and `install` for one source
  and tag.

  A run checks the cache, asks the releases, and then takes the steps of `Assembly.act`: an
  interleaving is a list of steps, each with the id of the process that takes it.

  `install_keeps_libraries` says what holds in every interleaving in which no removal step of
  `remove_dir_all` is taken on a directory that holds a library. `install_discards_libraries` is an
  interleaving where a run acts on an outdated check.
-/

namespace Stiles

open SharedSlot (Accepted)

namespace Prebuilt

/-- What the release lookup answers, or that it failed. -/
inductive AssetSearch where
  | Found
  | NoMatch
  | Unlisted
  | Failed
deriving DecidableEq, Repr

/-- Where a run is, and how it ended. `Cached` is a `cached` that returned the directory, and
    `Install .Installed` is an `install` that returned `Installed::Yes`. -/
inductive Phase where
  | Start
  | Lookup
  | Install (stage : Stage)
  | Cached
  | Absent
  | Unlisted
  | Failed
deriving DecidableEq, Repr

inductive Action where
  | cached
  | findAsset (answer : AssetSearch)
  | install (action : Assembly.Action)
deriving DecidableEq

section

variable (dllExtension : String) (archive : List DirEntry) (destination : FilePath)

/-- The dynamic libraries directly inside a directory, in the order of their names. -/
def libraries (entries : List DirEntry) : List DirEntry :=
  (entries.filter fun entry =>
    FilePath.extension ⟨entry.name⟩ = some dllExtension ∧ entry.isFile).insertionSort
      fun e f => e.name ≤ f.name

def holdsLibraries (entries : List DirEntry) : Bool := !(libraries dllExtension entries).isEmpty

/-- What `unpack` leaves in the staging directory. `archive` holds the files at the root of the
    verified archive. -/
def unpack : Option (List DirEntry) :=
  if holdsLibraries dllExtension archive then some archive else none

def install : Assembly where
  destination := destination
  holds := holdsLibraries dllExtension
  assemble := fun _ => unpack dllExtension archive

/-- One step of process `pid`. -/
def act (pid : Nat) (files : Files) : Phase → Action → Option (Files × Phase)
  | .Start, .cached =>
    some (files, if (install dllExtension archive destination).held files then .Cached else .Lookup)
  | .Lookup, .findAsset answer =>
    some (files, match answer with
      | .Found => .Install .Exists
      | .NoMatch => .Absent
      | .Unlisted => .Unlisted
      | .Failed => .Failed)
  | .Install stage, .install action =>
    ((install dllExtension archive destination).act pid files stage action).map
      fun (files, stage) => (files, .Install stage)
  | _, _ => none

abbrev State := Parties.State Files Phase

def step : State → Nat × Action → Option State :=
  Parties.step (act dllExtension archive destination)

end

/-- Every run starts with its check of the cache. -/
def init (files : Files) : State := { shared := files, party := fun _ => .Start }

variable {dllExtension : String} {archive : List DirEntry} {destination : FilePath}

/-! ## What a directory holds -/

theorem mem_libraries {entries : List DirEntry} {entry : DirEntry} :
    entry ∈ libraries dllExtension entries ↔
      entry ∈ entries ∧ FilePath.extension ⟨entry.name⟩ = some dllExtension ∧
        entry.isFile = true := by
  unfold libraries
  rw [List.mem_insertionSort, List.mem_filter, decide_eq_true_eq]

theorem holdsLibraries_iff {entries : List DirEntry} :
    holdsLibraries dllExtension entries = true ↔
      ∃ library, library ∈ libraries dllExtension entries := by
  unfold holdsLibraries
  rw [Bool.not_eq_true', List.isEmpty_eq_false_iff_exists_mem]

/-- More entries hold no fewer libraries. -/
theorem holdsLibraries_of_subset {entries entries' : List DirEntry} (h : entries' ⊆ entries)
    (hholds : holdsLibraries dllExtension entries' = true) :
    holdsLibraries dllExtension entries = true := by
  obtain ⟨library, hlibrary⟩ := holdsLibraries_iff.mp hholds
  obtain ⟨hmem, hkind⟩ := mem_libraries.mp hlibrary
  exact holdsLibraries_iff.mpr ⟨library, mem_libraries.mpr ⟨h hmem, hkind⟩⟩

/-- The entries hold every library of the archive. -/
def Whole (dllExtension : String) (archive entries : List DirEntry) : Prop :=
  ∀ library ∈ libraries dllExtension archive, library ∈ libraries dllExtension entries

theorem install_correct :
    (install dllExtension archive destination).Correct (Whole dllExtension archive) where
  empty := by simp [install, holdsLibraries, libraries]
  assembled := by
    intro pid entries h
    change unpack dllExtension archive = some entries at h
    unfold unpack at h
    split at h
    · rename_i hholds
      cases h
      exact ⟨fun library hlibrary => hlibrary, hholds⟩
    · cases h

/-! ## The steps of a run -/

/-- No removal step is taken on a directory that holds a library. -/
def Guard (dllExtension : String) (archive : List DirEntry) (destination : FilePath)
    (files : Files) (action : Action) : Prop :=
  ∀ name, action = .install (.unlink name) →
    (install dllExtension archive destination).held files = false

/-- Taking an entry out gives no directory a library. -/
theorem unlink_not_held {files files' : Files} {name : String}
    (hheld : (install dllExtension archive destination).held files = false)
    (h : files.unlink destination name = some files') :
    (install dllExtension archive destination).held files' = false := by
  obtain ⟨directory, hdirectory, rfl⟩ := Files.unlink_eq_some h
  have hbefore : holdsLibraries dllExtension directory.entries = false := by
    simpa [Assembly.held, install, hdirectory] using hheld
  simp only [Assembly.held, install, Files.set_same]
  by_contra hafter
  rw [Bool.not_eq_false] at hafter
  rw [holdsLibraries_of_subset (List.filter_subset_self _) hafter] at hbefore
  cases hbefore

def stageOf : Phase → Option Stage
  | .Install stage => some stage
  | _ => none

theorem act_embeds : (install dllExtension archive destination).Embeds
    (act dllExtension archive destination) stageOf (Guard dllExtension archive destination) where
  cases := by
    intro pid files phase action files' phase' h
    unfold act at h
    split at h
    · cases h
      refine Or.inl ⟨rfl, fun stage hstage => ?_⟩
      split at hstage <;> cases hstage
    · rename_i answer
      cases h
      refine Or.inl ⟨rfl, fun stage hstage => ?_⟩
      cases answer <;> cases hstage
      exact Or.inl rfl
    · rename_i stage act'
      obtain ⟨⟨after, stage'⟩, hact, heq⟩ := Option.map_eq_some_iff.mp h
      cases heq
      refine Or.inr ⟨stage, stage', act', rfl, rfl, hact, fun hguard name hname => ?_⟩
      have hheld := hguard name (by rw [hname])
      exact ⟨hheld, fun _ hunlink => unlink_not_held hheld hunlink⟩
    · cases h

/-! ## Every interleaving -/

/-- The directory is still there, neither removed nor replaced, and has all its libraries. -/
def Kept (dllExtension : String) (before after : Option Directory) : Prop :=
  ∃ directory directory', before = some directory ∧ after = some directory' ∧
    directory'.owner = directory.owner ∧ Whole dllExtension directory.entries directory'.entries

/-- At every point of an interleaving, what `cached` would return holds every library of the
    archive; and once a run returned `Installed::Yes`, the destination keeps what it holds. -/
def KeepsLibraries (dllExtension : String) (archive : List DirEntry) (destination : FilePath)
    (files : Files) (actions : List (Nat × Action)) : Prop :=
  ∀ before after, actions = before ++ after →
    ∀ s, Machine.run (step dllExtension archive destination) (init files) before = some s →
      ((install dllExtension archive destination).held s.shared = true →
        Accepted (Whole dllExtension archive) (s.shared destination)) ∧
      ∀ pid, s.party pid = .Install .Installed →
        ∀ t, Machine.run (step dllExtension archive destination) s after = some t →
          Kept dllExtension (s.shared destination) (t.shared destination)

/-- If what the machine holds at the start is whole, the runs keep the libraries in every
    interleaving in which no removal step is taken on a directory that holds a library. -/
theorem install_keeps_libraries (dllExtension : String) (archive : List DirEntry)
    (destination : FilePath) (files : Files)
    (hstart : (install dllExtension archive destination).held files = true →
      Accepted (Whole dllExtension archive) (files destination))
    (actions : List (Nat × Action))
    (hguard : Machine.Meets (step dllExtension archive destination)
      (fun s action => Guard dllExtension archive destination s.shared action.2) (init files)
      actions) : KeepsLibraries dllExtension archive destination files actions := by
  intro before after hsplit s hs
  rw [hsplit] at hguard
  obtain ⟨hbefore, hafter⟩ := Machine.meets_append hguard
  have hinv := act_embeds.run_inv install_correct (Assembly.inv_init hstart fun _ => rfl) hbefore hs
  refine ⟨fun hheld => Assembly.inv_held hinv (Assembly.held_iff.mp hheld), ?_⟩
  intro pid hpid t ht
  have husable := (hinv.own pid .Installed (by rw [hpid]; rfl)).told rfl
  have hsame := act_embeds.run_settled install_correct hinv (hafter s hs) ht husable
  obtain ⟨directory, hdirectory, _⟩ := husable
  change t.shared destination = s.shared destination at hsame
  exact ⟨directory, directory, hdirectory, by rw [hsame]; exact hdirectory, rfl,
    fun library hlibrary => hlibrary⟩

/-- An archive of two libraries. -/
def twoLibraries : List DirEntry :=
  [⟨"liba.so", true, "a"⟩, ⟨"libb.so", true, "b"⟩]

/-- Two runs that both find nothing and race to the rename. The second one loses it, finds the
    libraries of the first, and both have installed them. -/
def race : List (Nat × Action) :=
  [(0, .cached), (1, .cached), (0, .findAsset .Found), (1, .findAsset .Found),
    (0, .install .exists_), (1, .install .exists_), (0, .install .assemble),
    (1, .install .assemble), (0, .install .rename), (1, .install .renameFails),
    (1, .install .recheck)]

theorem install_keeps_libraries_race :
    (Machine.run (step "so" twoLibraries ⟨"lints"⟩) (init fun _ => none) race).any
      (fun s => s.party 0 = .Install .Installed && s.party 1 = .Install .Installed) = true ∧
    KeepsLibraries "so" twoLibraries ⟨"lints"⟩ (fun _ => none) race :=
  ⟨by decide,
    install_keeps_libraries "so" twoLibraries ⟨"lints"⟩ (fun _ => none) (by simp [Assembly.held])
      race (by simp [Machine.Meets, Guard, race])⟩

/-- Process 1 looked at the cache before process 0 installed the libraries. Its existence check
    comes after, so it takes the fresh directory for a damaged one and removes a library. -/
def outdatedCheck : List (Nat × Action) :=
  [(1, .cached), (0, .cached), (0, .findAsset .Found), (0, .install .exists_),
    (0, .install .assemble), (0, .install .rename), (1, .findAsset .Found), (1, .install .exists_),
    (1, .install (.unlink "liba.so"))]

theorem install_discards_libraries :
    ¬ KeepsLibraries "so" twoLibraries ⟨"lints"⟩ (fun _ => none) outdatedCheck := by
  intro h
  have hends : (Machine.run (step "so" twoLibraries ⟨"lints"⟩) (init fun _ => none)
      outdatedCheck).any (fun s => (install "so" twoLibraries ⟨"lints"⟩).held s.shared &&
        s.shared ⟨"lints"⟩ = some ⟨some 0, [⟨"libb.so", true, "b"⟩]⟩) = true := by
    decide
  obtain ⟨s, hs, hend⟩ := (Option.any_eq_true _ _).mp hends
  rw [Bool.and_eq_true, decide_eq_true_eq] at hend
  obtain ⟨hwhole, _⟩ := h outdatedCheck [] (List.append_nil _).symm s hs
  obtain ⟨directory, hdirectory, hlibraries⟩ := hwhole hend.1
  rw [hend.2, Option.some.injEq] at hdirectory
  subst hdirectory
  exact absurd (hlibraries ⟨"liba.so", true, "a"⟩ (by decide)) (by decide)

end Prebuilt

end Stiles
