import Stiles.CustomLints.ResolveRuns

/-
  The installers of `Resolve` are runs of the machines of `GitSource` and `Prebuilt`, in which one
  process takes every step.

  The machines say what holds in any interleaving of such steps. Here a step of the machine stands
  for all that a process does in its staging directory.

  * `Assembly.run_assembled`: a process that is alone installs what it assembles.
  * `checkout_simulated`, `install_simulated`: an installer that ends with its directory in place.
  * `installers_simulated`: both, for any files, remote and network.
-/

namespace Stiles

/-! ## A process that is alone -/

namespace Assembly

variable {assembly : Assembly} {pid : Nat} {files : Files}

theorem held_eq_any (assembly : Assembly) (files : Files) : assembly.held files
    = (files assembly.destination).any fun directory => assembly.holds directory.entries := by
  rw [held]
  cases files assembly.destination with
  | none => rfl
  | some directory => rfl

/-- A process that takes every step of `act`. -/
abbrev alone (assembly : Assembly) (pid : Nat) (x : Files × Stage) (action : Action) :
    Option (Files × Stage) :=
  assembly.act pid x.1 x.2 action

/-- `remove_dir_all`, with the entries in the order of `names`. -/
def removal (names : List String) : List Action := names.map .unlink ++ [.rmdir]

theorem run_removal {owner : Option Nat} {names : List String} {t : Files}
    (h : Fs.Left files assembly.destination owner names t) :
    Machine.run (assembly.alone pid) (t, .Discard) (removal names)
      = some (files.set assembly.destination none, .Assemble) := by
  induction names generalizing t with
  | nil =>
    have hrmdir := Fs.rmdir_left h
    rw [removal, List.map_nil, List.nil_append, Machine.run, alone, act, hrmdir]
    rfl
  | cons name names ih =>
    obtain ⟨t', hunlink, hleft⟩ := Fs.unlink_left h
    rw [removal, List.map_cons, List.cons_append, Machine.run, alone, act, hunlink]
    exact ih hleft

/-- What is in the way, as the machine sees it: the order in which its entries go. -/
def discard (disk : Disk) (files : Files) (destination : FilePath) : List Action :=
  match files destination with
  | none => []
  | some directory => removal (disk.order (Fs.entryNames (some directory)))

theorem run_installing {entries : List DirEntry} (hfree : files assembly.destination = none)
    (hassemble : assembly.assemble pid = some entries) :
    Machine.run (assembly.alone pid) (files, .Assemble) [.assemble, .rename]
      = some (Resolve.placed files (assembly.staging pid) assembly.destination pid entries,
          .Installed) := by
  have hrename : (files.set (assembly.staging pid) (some ⟨some pid, entries⟩)).rename
      (assembly.staging pid) assembly.destination
      = some (Resolve.placed files (assembly.staging pid) assembly.destination pid entries) := by
    rw [Files.rename, Files.set_same, Files.set_other _ _ staging_ne, hfree]
    simp only [Files.set_set]
    rfl
  rw [Machine.run, alone, act, hassemble, Option.map_some, Option.bind_some, Machine.run, alone,
    act, hrename]
  rfl

/-- A process that is alone removes what is in the way and installs what it assembles. -/
theorem run_assembled (assembly : Assembly) (disk : Disk) (files : Files) {entries : List DirEntry}
    (hassemble : assembly.assemble disk.pid = some entries) :
    Machine.run (assembly.alone disk.pid) (files, .Exists)
        (.exists_ :: (discard disk files assembly.destination ++ [.assemble, .rename]))
      = some (Resolve.placed (files.set assembly.destination none) (assembly.staging disk.pid)
          assembly.destination disk.pid entries, .Installed) := by
  have hfree : (files.set assembly.destination none) assembly.destination = none :=
    Files.set_same ..
  have hexists : assembly.alone disk.pid (files, .Exists) .exists_
      = some (files, if (files assembly.destination).isSome then .Discard else .Assemble) := rfl
  rw [Machine.run, hexists, Option.bind_some]
  cases hthere : files assembly.destination with
  | none =>
    have hself : files.set assembly.destination none = files := by
      rw [← hthere, Files.set_self]
    rw [discard, hthere, hself, Option.isSome_none, if_neg Bool.false_ne_true]
    exact run_installing hthere hassemble
  | some directory =>
    have hleft := Fs.left_entryNames disk files assembly.destination directory
    rw [← hthere, Files.set_self, hthere] at hleft
    rw [discard, hthere, Machine.run_append, Option.isSome_some, if_pos rfl, run_removal hleft]
    exact run_installing hfree hassemble

end Assembly

/-- The shared part of a call, which the machine takes as its own steps. -/
theorem GitSource.run_checkout (gix : GitSource.Gix) (rev : GitRev) (destination : FilePath)
    (pid : Nat) (x : Files × Stage) (actions : List Assembly.Action) :
    Machine.run (fun x action => GitSource.act gix rev destination pid x.1 x.2 action)
        (x.1, GitSource.Phase.Checkout x.2) (actions.map .checkout)
      = (Machine.run ((GitSource.checkout gix rev destination).alone pid) x actions).map
        fun x => (x.1, .Checkout x.2) :=
  Machine.run_embeds (f := fun x => (x.1, GitSource.Phase.Checkout x.2)) (fun _ _ => rfl) x actions

theorem Prebuilt.run_install (dllExtension : String) (archive : List DirEntry)
    (destination : FilePath) (pid : Nat) (x : Files × Stage) (actions : List Assembly.Action) :
    Machine.run (fun x action => Prebuilt.act dllExtension archive destination pid x.1 x.2 action)
        (x.1, Prebuilt.Phase.Install x.2) (actions.map .install)
      = (Machine.run ((Prebuilt.install dllExtension archive destination).alone pid) x actions).map
        fun x => (x.1, .Install x.2) :=
  Machine.run_embeds (f := fun x => (x.1, Prebuilt.Phase.Install x.2)) (fun _ _ => rfl) x actions

namespace Resolve

open Crash (Prog Triple)
open Releases

variable {tools : Tools} {world : World} {destination : FilePath}

/-! ## Checkouts -/

/-- The actions of a call that finds no checkout. -/
def checkoutActions (disk : Disk) (files : Files) (destination : FilePath) :
    List GitSource.Action :=
  .holds :: (Assembly.Action.exists_ :: (Assembly.discard disk files destination ++
    [.assemble, .rename])).map .checkout

/-- A `checkout` that returns is a run of the machine, which ends with the same files. -/
theorem checkout_simulated (files : Files) (source : GitLintSource)
    (hparent : destination.parent.isSome = true) {path : FilePath}
    (hreturned : (checkout tools world source destination files).value = .ok path) :
    ∃ (prepared : List DirEntry) (actions : List GitSource.Action) (t : GitSource.State),
      Machine.run (GitSource.step (gitSource tools prepared) source.rev destination)
          (GitSource.init files) (actions.map (Prod.mk world.disk.pid)) = some t ∧
        t.shared = (checkout tools world source destination files).final ∧
        t.party world.disk.pid = .Checkout .Installed := by
  cases hheld : holds tools source.rev (files destination) with
  | true =>
    have hfinal : (checkout tools world source destination files).final = files := by
      rw [checkout, Prog.read_bind, hheld]
      rfl
    have hmachine : (GitSource.checkout (gitSource tools []) source.rev destination).held files
        = true := (Assembly.held_eq_any ..).trans hheld
    have hstep : GitSource.act (gitSource tools []) source.rev destination world.disk.pid files
        .Start .holds = some (files, .Checkout .Installed) := by
      rw [GitSource.act, hmachine]
      rfl
    refine ⟨[], [.holds], ?_⟩
    rw [hfinal]
    apply Parties.run_alone_ends
    change Machine.run _ (files, GitSource.Phase.Start) [GitSource.Action.holds] = _
    rw [Machine.run, hstep]
    rfl
  | false =>
    cases hprepared : world.git.prepared with
    | error e =>
      have hspec : Triple (fun t => t = files) (checkout tools world source destination) _ _ :=
        checkout_fails files source destination hheld rfl hparent hprepared
      rw [(hspec files rfl).1.1] at hreturned
      cases hreturned
    | ok prepared =>
      have hspec : Triple (fun t => t = files) (checkout tools world source destination) _ _ :=
        checkout_places files source destination hheld rfl hparent hprepared
      obtain ⟨_, hfinal⟩ := (hspec files rfl).1
      refine ⟨prepared, checkoutActions world.disk files destination, ?_⟩
      rw [hfinal]
      apply Parties.run_alone_ends
      have hmachine : (GitSource.checkout (gitSource tools prepared) source.rev destination).held
          files = false := (Assembly.held_eq_any ..).trans hheld
      have hstep : GitSource.act (gitSource tools prepared) source.rev destination world.disk.pid
          files .Start .holds = some (files, .Checkout .Exists) := by
        rw [GitSource.act, hmachine]
        rfl
      have hassembled := (GitSource.checkout (gitSource tools prepared) source.rev
        destination).run_assembled world.disk files rfl
      change Machine.run _ (files, GitSource.Phase.Start) (checkoutActions _ _ _) = _
      rw [checkoutActions, Machine.run, hstep, Option.bind_some]
      exact (GitSource.run_checkout _ _ _ _ (files, .Exists) _).trans
        (congrArg (Option.map _) hassembled)

/-! ## Prebuilt libraries -/

/-- The actions of a run that finds no library in the cache, and an archive in a release. -/
def installActions (disk : Disk) (files : Files) (destination : FilePath) : List Prebuilt.Action :=
  .cached :: .findAsset .Found :: (Assembly.Action.exists_ ::
    (Assembly.discard disk files destination ++ [.assemble, .rename])).map .install

/-- An `install` that installs is a run of the machine, which ends with the same files. -/
theorem install_simulated (files : Files) (repository : GitHubRepository) (name : AssetName)
    (hparent : destination.parent.isSome = true)
    (hnothing : holdsLibraries tools (files destination) = false)
    (hreturned : (install tools world repository name destination files).value = .ok .Yes) :
    ∃ (archive : List DirEntry) (t : Prebuilt.State),
      Machine.run (Prebuilt.step tools.dllExtension archive destination) (Prebuilt.init files)
          ((installActions world.disk files destination).map (Prod.mk world.disk.pid)) = some t ∧
        t.shared = (install tools world repository name destination files).final ∧
        t.party world.disk.pid = .Install .Installed := by
  have hspec : Triple (fun t => t = files) (install tools world repository name destination) _ _ :=
    install_spec files destination rfl hparent repository name rfl rfl
  have hends := (hspec files rfl).1
  cases hresult : installedEntries tools world repository name
      (stagingDirectory destination world.disk.pid) with
  | none =>
    rw [hresult] at hends
    exact absurd hreturned hends.1
  | some entries =>
    rw [hresult] at hends
    refine ⟨entries, ?_⟩
    rw [hends.2]
    apply Parties.run_alone_ends
    have hassemble : Prebuilt.unpack tools.dllExtension entries = some entries :=
      if_pos (installedEntries_eq_some hresult).1
    have hheld : (Prebuilt.install tools.dllExtension entries destination).held files = false :=
      (Assembly.held_eq_any ..).trans hnothing
    have hstep : Prebuilt.act tools.dllExtension entries destination world.disk.pid files
        .Start .cached = some (files, .Lookup) := by
      rw [Prebuilt.act, hheld]
      rfl
    have hassembled := (Prebuilt.install tools.dllExtension entries destination).run_assembled
      world.disk files hassemble
    change Machine.run _ (files, Prebuilt.Phase.Start) (installActions _ _ _) = _
    rw [installActions, Machine.run, hstep, Option.bind_some]
    exact (Prebuilt.run_install _ _ _ _ (files, .Exists) _).trans
      (congrArg (Option.map _) hassembled)

/-- The installers refine the machines. A `checkout` that returns and an `install` that installs are
    runs in which one process takes every step, with the files at their ends. -/
theorem installers_simulated (tools : Tools) (world : World) (files : Files) (destination : FilePath)
    (hparent : destination.parent.isSome = true) :
    (∀ source path, (checkout tools world source destination files).value = .ok path →
      ∃ (prepared : List DirEntry) (actions : List GitSource.Action) (t : GitSource.State),
        Machine.run (GitSource.step (gitSource tools prepared) source.rev destination)
            (GitSource.init files) (actions.map (Prod.mk world.disk.pid)) = some t ∧
          t.shared = (checkout tools world source destination files).final ∧
          t.party world.disk.pid = .Checkout .Installed) ∧
    ∀ repository name, holdsLibraries tools (files destination) = false →
      (install tools world repository name destination files).value = .ok .Yes →
      ∃ (archive : List DirEntry) (t : Prebuilt.State),
        Machine.run (Prebuilt.step tools.dllExtension archive destination) (Prebuilt.init files)
            ((installActions world.disk files destination).map (Prod.mk world.disk.pid)) = some t ∧
          t.shared = (install tools world repository name destination files).final ∧
          t.party world.disk.pid = .Install .Installed :=
  ⟨fun source _ => checkout_simulated files source hparent,
    fun repository name => install_simulated files repository name hparent⟩

/-- A directory that holds no checkout is in the way. -/
def damaged (destination : FilePath) : Files :=
  Files.set (fun _ => none) destination (some ⟨none, [⟨"README.md", true, ""⟩]⟩)

theorem installers_simulated_damaged : ∃ (actions : List GitSource.Action) (t : GitSource.State),
    (∃ prepared, Machine.run (GitSource.step (gitSource plainTools prepared) pinnedRules.rev
      ⟨"/cache/git/rules"⟩) (GitSource.init (damaged ⟨"/cache/git/rules"⟩))
        (actions.map (Prod.mk 8)) = some t) ∧
      t.party 8 = .Checkout .Installed ∧
      holds plainTools pinnedRules.rev (t.shared ⟨"/cache/git/rules"⟩) = true := by
  have hreturned : (checkout plainTools (plainWorld 8) pinnedRules ⟨"/cache/git/rules"⟩
      (damaged ⟨"/cache/git/rules"⟩)).value = .ok ⟨"/cache/git/rules"⟩ := rfl
  have hheld : holds plainTools pinnedRules.rev ((checkout plainTools (plainWorld 8) pinnedRules
      ⟨"/cache/git/rules"⟩ (damaged ⟨"/cache/git/rules"⟩)).final ⟨"/cache/git/rules"⟩) = true := rfl
  obtain ⟨prepared, actions, t, hrun, hshared, hparty⟩ := (installers_simulated plainTools
    (plainWorld 8) (damaged ⟨"/cache/git/rules"⟩) ⟨"/cache/git/rules"⟩ (by decide)).1 pinnedRules _
      hreturned
  refine ⟨actions, t, ⟨prepared, hrun⟩, hparty, ?_⟩
  rw [hshared]
  exact hheld

end Resolve

end Stiles
