import Stiles.CustomLints.Cache
import Stiles.General.Parties

/-
  The part that `git_source::checkout` and `prebuilt::install` share: discard what is at the
  destination, assemble a directory beside it, and rename it into place. The one that loses the
  rename reads what the winner installed.

  A run is a process, and its steps interleave with those of every other process. An `Assembly` is
  what the two functions differ in. `act` is one step of the shared part, and `Embeds` says that a
  process takes such steps and otherwise leaves the file system alone.

  `act_effect` says what a step does to the destination as long as no removal step is taken on a
  directory that the check holds for (`Guard`). `Embeds.run_inv` and `Embeds.run_settled` are
  what follows for every run of all processes together.
-/

namespace Stiles

open SharedSlot (Accepted Effect Sound)

/-- Where a run is, named by the step it takes next, and how it ended. -/
inductive Stage where
  | Exists
  | Discard
  | Assemble
  | Rename
  | Recheck
  | Installed
  | Failed
deriving DecidableEq, Repr

structure Assembly where
  destination : FilePath
  /-- The check of a directory that a run may use as it is. -/
  holds : List DirEntry → Bool
  /-- What a process assembles if nothing fails, or `none` if it refuses the result. -/
  assemble : Nat → Option (List DirEntry)

namespace Assembly

inductive Action where
  | exists_
  | unlink (name : String)
  | alreadyGone
  | rmdir
  | removeFails
  | assemble
  | assembleFails (left : Option Directory)
  | rename
  | renameFails
  | recheck
deriving DecidableEq

section

variable (assembly : Assembly)

def staging (pid : Nat) : FilePath := stagingDirectory assembly.destination pid

/-- The check of the destination. A directory that is not there holds nothing. -/
def held (files : Files) : Bool :=
  match files assembly.destination with
  | none => false
  | some directory => assembly.holds directory.entries

/-- One step of process `pid`. -/
def act (pid : Nat) (files : Files) : Stage → Action → Option (Files × Stage)
  | .Exists, .exists_ =>
    some (files, if (files assembly.destination).isSome then .Discard else .Assemble)
  -- `remove_dir_all` takes its entries out in any order, and puts up with one that is gone already.
  | .Discard, .unlink name =>
    (files.unlink assembly.destination name).map fun files => (files, .Discard)
  | .Discard, .alreadyGone => some (files, .Discard)
  | .Discard, .rmdir => (files.rmdir assembly.destination).map fun files => (files, .Assemble)
  | .Discard, .removeFails => some (files, .Failed)
  -- What an abandoned run left in the staging directory is discarded first.
  | .Assemble, .assemble =>
    (assembly.assemble pid).map fun entries =>
      (files.set (assembly.staging pid) (some { owner := some pid, entries }), .Rename)
  | .Assemble, .assembleFails left => some (files.set (assembly.staging pid) left, .Failed)
  | .Rename, .rename =>
    (files.rename (assembly.staging pid) assembly.destination).map fun files => (files, .Installed)
  | .Rename, .renameFails => some (files.set (assembly.staging pid) none, .Recheck)
  | .Recheck, .recheck => some (files, if assembly.held files then .Installed else .Failed)
  | _, _ => none

end

variable {assembly : Assembly} {whole : List DirEntry → Prop} {pid : Nat} {files files' : Files}
  {stage stage' : Stage}

/-- The check holds for the directory at the destination. -/
abbrev Usable (assembly : Assembly) (files : Files) : Prop :=
  Accepted (fun entries => assembly.holds entries = true) (files assembly.destination)

theorem held_iff : assembly.held files = true ↔ assembly.Usable files := by
  unfold held
  split
  · rename_i hnone
    rw [Usable, hnone]
    simp [SharedSlot.not_accepted_none]
  · rename_i directory hdirectory
    rw [Usable, hdirectory, SharedSlot.accepted_some]

theorem not_usable (h : assembly.held files = false) : ¬ assembly.Usable files := by
  rw [← held_iff, h]
  simp

/-! ## One step -/

/-- What the results below rest on: the check refuses an empty directory, and what a process
    assembles is whole and passes the check. -/
structure Correct (assembly : Assembly) (whole : List DirEntry → Prop) : Prop where
  empty : assembly.holds [] = false
  assembled : ∀ pid entries, assembly.assemble pid = some entries →
    whole entries ∧ assembly.holds entries = true

/-- A removal step neither meets nor leaves a directory that the check holds for. -/
def Guard (assembly : Assembly) (files : Files) (action : Action) : Prop :=
  ∀ name, action = .unlink name → assembly.held files = false ∧
    ∀ files', files.unlink assembly.destination name = some files' → assembly.held files' = false

/-- What a run assembled, and what it was told of the destination. -/
structure Own (assembly : Assembly) (whole : List DirEntry → Prop) (pid : Nat) (files : Files)
    (stage : Stage) : Prop where
  staged : stage = .Rename → ∀ directory, files (assembly.staging pid) = some directory →
    whole directory.entries ∧ assembly.holds directory.entries = true
  told : stage = .Installed → assembly.Usable files

/-- The effect of a step on the destination. -/
abbrev Leaves (assembly : Assembly) (whole : List DirEntry → Prop) (files files' : Files) : Prop :=
  Effect (fun entries => assembly.holds entries = true) whole (files assembly.destination)
    (files' assembly.destination)

theorem staging_ne : assembly.destination ≠ assembly.staging pid :=
  (stagingDirectory_ne assembly.destination pid).symm

/-- A step at the staging directory does not touch the destination. -/
theorem leaves_set_staging (directory : Option Directory) :
    assembly.Leaves whole files (files.set (assembly.staging pid) directory) := by
  rw [Leaves, Files.set_other files directory staging_ne]
  exact .keep _

/-- A destination that holds nothing is not usable. -/
theorem not_usable_of_empty (hcorrect : assembly.Correct whole)
    (h : ∀ directory, files assembly.destination = some directory → directory.entries = []) :
    ¬ assembly.Usable files := by
  rintro ⟨directory, hdirectory, hholds⟩
  rw [h directory hdirectory, hcorrect.empty] at hholds
  cases hholds

theorem unlink_leaves {name : String} (hguard : assembly.Guard files (.unlink name))
    (h : files.unlink assembly.destination name = some files') :
    assembly.Leaves whole files files' := by
  obtain ⟨hbefore, hafter⟩ := hguard name rfl
  replace hafter := not_usable (hafter files' h)
  replace hbefore := not_usable hbefore
  obtain ⟨directory, hdirectory, rfl⟩ := Files.unlink_eq_some h
  rw [Usable, Files.set_same, SharedSlot.accepted_some] at hafter
  rw [Usable, hdirectory, SharedSlot.accepted_some] at hbefore
  rw [Leaves, hdirectory, Files.set_same]
  exact .shrink _ _ _ hbefore hafter

theorem rmdir_leaves (hcorrect : assembly.Correct whole)
    (h : files.rmdir assembly.destination = some files') : assembly.Leaves whole files files' := by
  obtain ⟨hempty, rfl⟩ := Files.rmdir_eq_some h
  rw [Leaves, Files.set_same]
  exact .remove _ (not_usable_of_empty hcorrect hempty)

/-- A rename that succeeds leaves a whole directory, which the check holds for. -/
theorem rename_leaves (hcorrect : assembly.Correct whole)
    (hown : assembly.Own whole pid files .Rename)
    (h : files.rename (assembly.staging pid) assembly.destination = some files') :
    assembly.Leaves whole files files' ∧ assembly.Usable files' := by
  obtain ⟨directory, hdirectory, hfree, rfl⟩ := Files.rename_eq_some h
  obtain ⟨hwhole, hholds⟩ := hown.staged rfl directory hdirectory
  constructor
  · rw [Leaves, Files.set_same]
    exact .place _ _ (not_usable_of_empty hcorrect hfree) hwhole
  · rw [Usable, Files.set_same, SharedSlot.accepted_some]
    exact hholds

/-- A run that is not told anything, and is not about to rename, owns nothing. -/
theorem own_of_ne (hrename : stage ≠ .Rename) (hinstalled : stage ≠ .Installed) :
    assembly.Own whole pid files stage where
  staged h := absurd h hrename
  told h := absurd h hinstalled

/-- The step of a run: what it does to the destination, and what the run owns after it. -/
theorem act_effect (hcorrect : assembly.Correct whole) {action : Action}
    (hown : assembly.Own whole pid files stage) (hguard : assembly.Guard files action)
    (h : assembly.act pid files stage action = some (files', stage')) :
    assembly.Leaves whole files files' ∧ assembly.Own whole pid files' stage' := by
  unfold act at h
  split at h
  · cases h
    refine ⟨.keep _, ?_⟩
    split <;> exact own_of_ne (by simp) (by simp)
  · rename_i name
    obtain ⟨after, hunlink, heq⟩ := Option.map_eq_some_iff.mp h
    cases heq
    exact ⟨unlink_leaves hguard hunlink, own_of_ne (by simp) (by simp)⟩
  · cases h
    exact ⟨.keep _, hown⟩
  · obtain ⟨after, hrmdir, heq⟩ := Option.map_eq_some_iff.mp h
    cases heq
    exact ⟨rmdir_leaves hcorrect hrmdir, own_of_ne (by simp) (by simp)⟩
  · cases h
    exact ⟨.keep _, own_of_ne (by simp) (by simp)⟩
  · obtain ⟨entries, hassembled, heq⟩ := Option.map_eq_some_iff.mp h
    cases heq
    refine ⟨leaves_set_staging _, fun _ directory hdirectory => ?_, by simp⟩
    rw [Files.set_same, Option.some.injEq] at hdirectory
    rw [← hdirectory]
    exact hcorrect.assembled pid entries hassembled
  · cases h
    exact ⟨leaves_set_staging _, own_of_ne (by simp) (by simp)⟩
  · obtain ⟨after, hrename, heq⟩ := Option.map_eq_some_iff.mp h
    cases heq
    obtain ⟨hleaves, husable⟩ := rename_leaves hcorrect hown hrename
    exact ⟨hleaves, by simp, fun _ => husable⟩
  · cases h
    exact ⟨leaves_set_staging _, own_of_ne (by simp) (by simp)⟩
  · cases h
    refine ⟨.keep _, ?_⟩
    split
    · rename_i hheld
      exact ⟨by simp, fun _ => held_iff.mp hheld⟩
    · exact own_of_ne (by simp) (by simp)
  · cases h

/-- A step of a run touches the destination and its own staging directory only. -/
theorem act_frame {action : Action}
    (h : assembly.act pid files stage action = some (files', stage')) {path : FilePath}
    (hdestination : path ≠ assembly.destination) (hstaging : path ≠ assembly.staging pid) :
    files' path = files path := by
  unfold act at h
  split at h
  case h_1 | h_3 | h_5 | h_10 =>
    cases h
    rfl
  case h_2 name =>
    obtain ⟨after, hunlink, heq⟩ := Option.map_eq_some_iff.mp h
    cases heq
    obtain ⟨directory, _, rfl⟩ := Files.unlink_eq_some hunlink
    exact Files.set_other _ _ hdestination
  case h_4 =>
    obtain ⟨after, hrmdir, heq⟩ := Option.map_eq_some_iff.mp h
    cases heq
    obtain ⟨_, rfl⟩ := Files.rmdir_eq_some hrmdir
    exact Files.set_other _ _ hdestination
  case h_6 =>
    obtain ⟨entries, _, heq⟩ := Option.map_eq_some_iff.mp h
    cases heq
    exact Files.set_other _ _ hstaging
  case h_7 | h_9 =>
    cases h
    exact Files.set_other _ _ hstaging
  case h_8 =>
    obtain ⟨after, hrename, heq⟩ := Option.map_eq_some_iff.mp h
    cases heq
    obtain ⟨directory, _, _, rfl⟩ := Files.rename_eq_some hrename
    rw [Files.set_other _ _ hdestination, Files.set_other _ _ hstaging]
  case h_11 => cases h

/-- What a run owns survives a step of another process. -/
theorem own_other {other : Nat} (hne : other ≠ pid) (hleaves : assembly.Leaves whole files files')
    (hframe : ∀ path, path ≠ assembly.destination → path ≠ assembly.staging pid →
      files' path = files path)
    (hown : assembly.Own whole other files stage) : assembly.Own whole other files' stage where
  staged := by
    intro hstage directory hdirectory
    have hapart : assembly.staging other ≠ assembly.staging pid :=
      fun h => hne (stagingDirectory_inj h)
    rw [hframe _ staging_ne.symm hapart] at hdirectory
    exact hown.staged hstage directory hdirectory
  told := by
    intro hstage
    have husable := hown.told hstage
    rw [Usable, hleaves.settled husable]
    exact husable

/-! ## Processes -/

variable {ρ α : Type*} {step : Nat → Files → ρ → α → Option (Files × ρ)}
  {stageOf : ρ → Option Stage} {guard : Files → α → Prop}

/-- A process whose steps are those of the assembly while it has a stage. Any other step leaves the
    file system alone and enters the assembly at its start, or ends it there because the check held
    for the destination. -/
structure Embeds (assembly : Assembly) (step : Nat → Files → ρ → α → Option (Files × ρ))
    (stageOf : ρ → Option Stage) (guard : Files → α → Prop) : Prop where
  cases : ∀ pid files process action files' process',
    step pid files process action = some (files', process') →
      (files' = files ∧ ∀ stage, stageOf process' = some stage →
        stage = .Exists ∨ stage = .Installed ∧ assembly.held files = true) ∨
      ∃ stage stage' act', stageOf process = some stage ∧ stageOf process' = some stage' ∧
        assembly.act pid files stage act' = some (files', stage') ∧
        (guard files action → assembly.Guard files act')

/-- What the check holds for is whole, and every run owns what its stage says. -/
abbrev Inv (assembly : Assembly) (whole : List DirEntry → Prop) (stageOf : ρ → Option Stage) :
    Parties.State Files ρ → Prop :=
  Parties.Inv
    (fun files => Sound (fun entries => assembly.holds entries = true) whole
      (files assembly.destination))
    (fun pid files process => ∀ stage, stageOf process = some stage →
      assembly.Own whole pid files stage)

theorem inv_init {s : Parties.State Files ρ}
    (hstart : assembly.held s.shared = true → Accepted whole (s.shared assembly.destination))
    (hbegin : ∀ pid, stageOf (s.party pid) = none) : Inv assembly whole stageOf s where
  shared := by
    intro directory hdirectory hholds
    obtain ⟨present, hpresent, hwhole⟩ := hstart (held_iff.mpr ⟨directory, hdirectory, hholds⟩)
    rw [hdirectory, Option.some.injEq] at hpresent
    rw [hpresent]
    exact hwhole
  own := by
    intro pid stage hstage
    rw [hbegin] at hstage
    cases hstage

theorem inv_held {s : Parties.State Files ρ} (hinv : Inv assembly whole stageOf s)
    (husable : assembly.Usable s.shared) : Accepted whole (s.shared assembly.destination) := by
  obtain ⟨directory, hdirectory, hholds⟩ := husable
  exact ⟨directory, hdirectory, hinv.shared directory hdirectory hholds⟩

namespace Embeds

variable (h : assembly.Embeds step stageOf guard) (hcorrect : assembly.Correct whole)
include h hcorrect

theorem step_effect {process process' : ρ} {action : α}
    (hown : ∀ stage, stageOf process = some stage → assembly.Own whole pid files stage)
    (hguard : guard files action)
    (hstep : step pid files process action = some (files', process')) :
    assembly.Leaves whole files files' ∧
      (∀ stage, stageOf process' = some stage → assembly.Own whole pid files' stage) ∧
      ∀ path, path ≠ assembly.destination → path ≠ assembly.staging pid →
        files' path = files path := by
  obtain ⟨rfl, hstart⟩ | ⟨stage, stage', act', hstage, hstage', hact, himp⟩ :=
    h.cases _ _ _ _ _ _ hstep
  · refine ⟨.keep _, fun stage hstage => ?_, fun _ _ _ => rfl⟩
    obtain rfl | ⟨rfl, hheld⟩ := hstart stage hstage
    · exact own_of_ne (by simp) (by simp)
    · exact ⟨by simp, fun _ => held_iff.mp hheld⟩
  · obtain ⟨hleaves, hown'⟩ := act_effect hcorrect (hown stage hstage) (himp hguard) hact
    refine ⟨hleaves, fun other hother => ?_, fun path => act_frame hact⟩
    rw [hstage', Option.some.injEq] at hother
    rw [← hother]
    exact hown'

theorem step_inv {s s' : Parties.State Files ρ} {action : Nat × α}
    (hinv : Inv assembly whole stageOf s) (hguard : guard s.shared action.2)
    (hstep : Parties.step step s action = some s') :
    assembly.Leaves whole s.shared s'.shared ∧ Inv assembly whole stageOf s' := by
  constructor
  · obtain ⟨files', process', hact, rfl⟩ := Parties.step_eq_some.mp hstep
    exact (h.step_effect hcorrect (hinv.own _) hguard hact).1
  · refine Parties.inv_step hinv hstep fun files' process' hact => ?_
    obtain ⟨hleaves, hown, hframe⟩ := h.step_effect hcorrect (hinv.own _) hguard hact
    refine ⟨hleaves.sound hinv.shared, hown, fun pid other hne hother stage hstage => ?_⟩
    exact own_other hne hleaves hframe (hother stage hstage)

variable {s t : Parties.State Files ρ} {actions : List (Nat × α)}
  (hinv : Inv assembly whole stageOf s)
  (hmeets : Machine.Meets (Parties.step step) (fun s action => guard s.shared action.2) s actions)
  (hrun : Machine.run (Parties.step step) s actions = some t)
include hinv hmeets hrun

theorem run_inv : Inv assembly whole stageOf t :=
  Machine.inv_of_meets _ (fun _ _ _ hu hguard hu' => (h.step_inv hcorrect hu hguard hu').2) hinv
    hmeets hrun

/-- A destination that the check holds for is not touched any more. -/
theorem run_settled (husable : assembly.Usable s.shared) :
    t.shared assembly.destination = s.shared assembly.destination :=
  SharedSlot.run_settled (Inv assembly whole stageOf) (fun u => u.shared assembly.destination)
    (fun _ _ _ hu hguard hu' => h.step_inv hcorrect hu hguard hu') hinv husable hmeets hrun

end Embeds

end Assembly

end Stiles
