import Stiles.Check.Grammar
import Stiles.TypeScript.Project

/-
  The decoration providers of a run (`commands/check/providers.rs`).

  `Providers.load` goes over the files and loads the project of each TypeScript file, unless one
  with the same root is loaded, and the Rust workspace if there is a Rust file. `forFile` looks up
  the provider of a file.

  * `load_spec`: what a load leaves behind.
  * `routes_iff`: each file gets the provider of its own project and each project is loaded once if
    and only if no path leaves a project by `..` and no two paths reach one project in two ways.
-/

namespace Stiles.Loading

open TypeScriptProject

/-- The toolchains of a run: what tsrs and the operating system answer, and rust-analyzer. -/
structure Toolchains (Program Workspace : Type) extends Host Program where
  loadRust : FilePath → AnyhowResult Workspace

/-- An error with the chain of its causes, as `anyhow` keeps it. -/
def anyhowOfChain : List String → Anyhow
  | [] => { message := "", causes := [] }
  | message :: causes => { message, causes }

variable {Program Workspace : Type}

/-- The projects that are loaded, each with its root as it was found, and the roots that
    `TypeScriptDecorationProvider::load` was called with. -/
structure Projects (Program : Type) where
  entries : List (AbsolutePath × TypeScriptDecorationProvider Program)
  loads : List AbsolutePath

namespace Projects

def new : Projects Program := ⟨[], []⟩

def containsKey (projects : Projects Program) (root : AbsolutePath) : Bool :=
  projects.entries.any fun entry => entry.1 = root

def get (projects : Projects Program) (root : AbsolutePath) :
    Option (TypeScriptDecorationProvider Program) :=
  (projects.entries.find? fun entry => entry.1 = root).map Prod.snd

end Projects

def loadTypescriptProject (host : Host Program) (file : FilePath) (projects : Projects Program) :
    AnyhowResult (Projects Program) :=
  match projectRoot host file.components with
  | none => .ok projects
  | some root =>
    if projects.containsKey root then .ok projects
    else
      match load host root.components with
      | .error e => withContext ("load the TypeScript project at " ++ root.display)
          (.error (anyhowOfChain e.chain))
      | .ok provider =>
        .ok ⟨projects.entries ++ [(root, provider)], projects.loads ++ [root]⟩

structure Providers (Program Workspace : Type) where
  rust : Option Workspace
  typescript : Projects Program

/-- A provider as a pipeline gets it. -/
inductive Provider (Program Workspace : Type) where
  | Rust (provider : Workspace)
  | TypeScript (provider : TypeScriptDecorationProvider Program)
  /-- Stands in for the provider of a file that no project holds. -/
  | NoTypeScriptProject

namespace Providers

/-- What one file adds: whether a Rust file was seen, and its TypeScript project. -/
def loadFile (host : Host Program) (state : Bool × Projects Program) (file : FilePath) :
    AnyhowResult (Bool × Projects Program) :=
  match Grammar.of file with
  | none => .ok state
  | some grammar =>
    match grammar.language with
    | .Rust => .ok (true, state.2)
    | .TypeScript =>
      (withContext "failed to load the TypeScript project for analysis"
        (loadTypescriptProject host file state.2)).map fun projects => (state.1, projects)

def load (toolchains : Toolchains Program Workspace) (path : FilePath) (files : List FilePath) :
    AnyhowResult (Providers Program Workspace) := do
  let (hasRust, typescript) ← files.foldlM (loadFile toolchains.toHost) (false, Projects.new)
  let rust ←
    if hasRust then
      (withContext "failed to load the target project for analysis"
        (toolchains.loadRust path)).map some
    else .ok none
  return { rust, typescript }

/-- The providers that may decorate `file`, a file in `language`. -/
def forFile (host : Host Program) (self : Providers Program Workspace) (file : FilePath)
    (language : Language) : List (Provider Program Workspace) :=
  let provider : Option (Provider Program Workspace) :=
    match language with
    | .Rust => self.rust.map .Rust
    | .TypeScript =>
      match projectRoot host file.components with
      | some root => (self.typescript.get root).map .TypeScript
      | none => some .NoTypeScriptProject
  provider.toList

end Providers

/-! ## What a load leaves behind -/

/-- The language of a file that has a grammar. -/
def languageOf (file : FilePath) : Option Language := (Grammar.of file).map Grammar.language

/-- What is loaded after some of the files: the projects of the TypeScript files among them, each
    under its own root and once, and whether there is a Rust file. -/
structure Loaded (host : Host Program) (files : List FilePath) (state : Bool × Projects Program) :
    Prop where
  rust : state.1 = true ↔ ∃ file ∈ files, languageOf file = some .Rust
  loads : state.2.loads = state.2.entries.map Prod.fst
  nodup : state.2.loads.Nodup
  roots : ∀ root, root ∈ state.2.loads ↔
    ∃ file ∈ files, languageOf file = some .TypeScript ∧
      projectRoot host file.components = some root
  own : ∀ entry ∈ state.2.entries, entry.2.root = entry.1

theorem discoverRoot_of_projectRoot {host : Host Program} {path : List Component}
    {root : AbsolutePath} (h : projectRoot host path = some root) :
    ∃ full, absolute host path = .ok full ∧ discoverRoot host full = some root := by
  unfold projectRoot at h
  split at h
  · cases h
  · rename_i full hfull
    exact ⟨full, hfull, h⟩

theorem Projects.containsKey_iff {projects : Projects Program} {root : AbsolutePath} :
    projects.containsKey root = true ↔ root ∈ projects.entries.map Prod.fst := by
  unfold Projects.containsKey
  rw [List.any_eq_true, List.mem_map]
  simp

theorem Loaded.new {host : Host Program} : Loaded host [] (false, Projects.new) where
  rust := by simp
  loads := rfl
  nodup := List.nodup_nil
  roots := fun root => by simp [Projects.new]
  own := fun entry h => absurd h List.not_mem_nil

/-- What a file with no new project leaves as it is. -/
theorem Loaded.same {host : Host Program} {files : List FilePath}
    {state : Bool × Projects Program} (h : Loaded host files state) {file : FilePath}
    (hrust : languageOf file ≠ some .Rust)
    (hroot : ∀ root, languageOf file = some .TypeScript →
      projectRoot host file.components = some root → root ∈ state.2.loads) :
    Loaded host (files ++ [file]) state := by
  refine ⟨?_, h.loads, h.nodup, fun root => ?_, h.own⟩
  · rw [h.rust]
    simp [hrust, or_and_right, exists_or]
  · constructor
    · intro hmem
      obtain ⟨other, hother, hroot⟩ := (h.roots root).mp hmem
      exact ⟨other, List.mem_append_left _ hother, hroot⟩
    · intro hmem
      obtain ⟨other, hother, hlanguage, hfound⟩ := hmem
      rcases List.mem_append.mp hother with hbefore | hnew
      · exact (h.roots root).mpr ⟨other, hbefore, hlanguage, hfound⟩
      · rw [List.mem_singleton.mp hnew] at hlanguage hfound
        exact hroot root hlanguage hfound

theorem Loaded.rustFile {host : Host Program} {files : List FilePath}
    {state : Bool × Projects Program} (h : Loaded host files state) {file : FilePath}
    (hrust : languageOf file = some .Rust) :
    Loaded host (files ++ [file]) (true, state.2) := by
  refine ⟨?_, h.loads, h.nodup, fun root => ?_, h.own⟩
  · exact iff_of_true rfl ⟨file, List.mem_append_right _ (List.mem_singleton_self _), hrust⟩
  · rw [h.roots root]
    constructor
    · intro hmem
      obtain ⟨other, hother, hroot⟩ := hmem
      exact ⟨other, List.mem_append_left _ hother, hroot⟩
    · intro hmem
      obtain ⟨other, hother, hlanguage, hfound⟩ := hmem
      rcases List.mem_append.mp hother with hbefore | hnew
      · exact ⟨other, hbefore, hlanguage, hfound⟩
      · rw [List.mem_singleton.mp hnew, hrust] at hlanguage
        cases hlanguage

/-- A project that was not loaded yet joins the others. -/
theorem Loaded.project {host : Host Program} {files : List FilePath}
    {state : Bool × Projects Program} (h : Loaded host files state) {file : FilePath}
    {root : AbsolutePath} {provider : TypeScriptDecorationProvider Program}
    (hlanguage : languageOf file = some .TypeScript)
    (hroot : projectRoot host file.components = some root) (hnew : root ∉ state.2.loads)
    (hown : provider.root = root) :
    Loaded host (files ++ [file])
      (state.1, ⟨state.2.entries ++ [(root, provider)], state.2.loads ++ [root]⟩) := by
  refine ⟨?_, ?_, ?_, fun other => ?_, ?_⟩
  · rw [h.rust]
    simp [hlanguage, or_and_right, exists_or]
  · show state.2.loads ++ [root] = _
    rw [h.loads, List.map_append]
    rfl
  · exact h.nodup.append (List.nodup_singleton _)
      (List.disjoint_singleton.mpr hnew)
  · show other ∈ state.2.loads ++ [root] ↔ _
    rw [List.mem_append, List.mem_singleton, h.roots other]
    constructor
    · rintro (⟨before, hbefore, hfound⟩ | rfl)
      · exact ⟨before, List.mem_append_left _ hbefore, hfound⟩
      · exact ⟨file, List.mem_append_right _ (List.mem_singleton_self _), hlanguage, hroot⟩
    · rintro ⟨before, hbefore, hfound⟩
      rcases List.mem_append.mp hbefore with hbefore | hlast
      · exact Or.inl ⟨before, hbefore, hfound⟩
      · rw [List.mem_singleton.mp hlast, hroot] at hfound
        exact Or.inr (Option.some.inj hfound.2).symm
  · intro entry hentry
    rcases List.mem_append.mp hentry with hbefore | hlast
    · exact h.own entry hbefore
    · rw [List.mem_singleton.mp hlast]
      exact hown

/-- What one file changes: the flag for a Rust file, and the projects for a TypeScript file whose
    project was not loaded yet. -/
theorem loadFile_cases {host : Host Program} {state next : Bool × Projects Program}
    {file : FilePath} (hnext : Providers.loadFile host state file = .ok next) :
    (languageOf file = some .Rust ∧ next = (true, state.2)) ∨
    (∃ root program, languageOf file = some .TypeScript ∧
      projectRoot host file.components = some root ∧ state.2.containsKey root = false ∧
      host.newProgram root = .ok program ∧
      next = (state.1, ⟨state.2.entries ++ [(root, ⟨program, root⟩)], state.2.loads ++ [root]⟩)) ∨
    (next = state ∧ languageOf file ≠ some .Rust ∧
      ∀ root, languageOf file = some .TypeScript →
        projectRoot host file.components = some root → state.2.containsKey root = true) := by
  unfold Providers.loadFile at hnext
  split at hnext
  · rename_i hgrammar
    have hnone : languageOf file = none := by rw [languageOf, hgrammar]; rfl
    refine Or.inr (Or.inr ⟨(Except.ok.inj hnext).symm, by rw [hnone]; decide, ?_⟩)
    intro root hlanguage
    cases hnone.symm.trans hlanguage
  · rename_i grammar hgrammar
    have hlanguage : languageOf file = some grammar.language := by rw [languageOf, hgrammar]; rfl
    split at hnext
    · rename_i hrust
      exact Or.inl ⟨hlanguage.trans (congrArg some hrust), (Except.ok.inj hnext).symm⟩
    · rename_i htypescript
      rw [htypescript] at hlanguage
      have hnot : languageOf file ≠ some .Rust := by
        rw [hlanguage]
        decide
      unfold loadTypescriptProject at hnext
      split at hnext
      · rename_i hroot
        refine Or.inr (Or.inr ⟨(Except.ok.inj hnext).symm, hnot, fun root _ hfound => ?_⟩)
        cases hroot.symm.trans hfound
      · rename_i root hroot
        split at hnext
        · rename_i hcontains
          refine Or.inr (Or.inr ⟨(Except.ok.inj hnext).symm, hnot, fun other _ hfound => ?_⟩)
          obtain rfl := Option.some.inj (hroot.symm.trans hfound)
          exact hcontains
        · rename_i hcontains
          obtain ⟨full, _, hdiscover⟩ := discoverRoot_of_projectRoot hroot
          rw [load_root hdiscover] at hnext
          cases hprogram : host.newProgram root with
          | error e =>
            rw [hprogram] at hnext
            cases hnext
          | ok program =>
            rw [hprogram] at hnext
            exact Or.inr (Or.inl ⟨root, program, hlanguage, hroot, Bool.eq_false_iff.mpr hcontains,
              hprogram, (Except.ok.inj hnext).symm⟩)

/-- What every file keeps, given the files before it, holds after a whole load. -/
theorem foldlM_loadFile {host : Host Program}
    (Keeps : List FilePath → Bool × Projects Program → Prop)
    (hkeeps : ∀ done state file next, Keeps done state →
      Providers.loadFile host state file = .ok next → Keeps (done ++ [file]) next)
    (done : List FilePath) {files : List FilePath} {state next : Bool × Projects Program}
    (h : Keeps done state) (hnext : files.foldlM (Providers.loadFile host) state = .ok next) :
    Keeps (done ++ files) next := by
  induction files generalizing done state with
  | nil =>
    obtain rfl := Except.ok.inj hnext
    rw [List.append_nil]
    exact h
  | cons file files ih =>
    rw [List.foldlM_cons] at hnext
    cases hstep : Providers.loadFile host state file with
    | error e =>
      rw [hstep] at hnext
      cases hnext
    | ok middle =>
      rw [hstep] at hnext
      have hrest := ih (done ++ [file]) (hkeeps done state file middle h hstep) hnext
      rw [List.append_assoc, List.singleton_append] at hrest
      exact hrest

theorem Loaded.loadFile {host : Host Program} {files : List FilePath}
    {state next : Bool × Projects Program} (h : Loaded host files state) {file : FilePath}
    (hnext : Providers.loadFile host state file = .ok next) :
    Loaded host (files ++ [file]) next := by
  rcases loadFile_cases hnext with ⟨hrust, rfl⟩ |
    ⟨root, program, hlanguage, hroot, hnew, -, rfl⟩ | ⟨rfl, hnot, hloaded⟩
  · exact h.rustFile hrust
  · refine h.project hlanguage hroot ?_ rfl
    rw [h.loads]
    intro hmem
    cases hnew.symm.trans (Projects.containsKey_iff.mpr hmem)
  · refine h.same hnot fun root hlanguage hroot => ?_
    rw [h.loads]
    exact Projects.containsKey_iff.mp (hloaded root hlanguage hroot)

theorem load_spec {toolchains : Toolchains Program Workspace} {path : FilePath}
    {files : List FilePath} {providers : Providers Program Workspace}
    (h : Providers.load toolchains path files = .ok providers) :
    ∃ hasRust, Loaded toolchains.toHost files (hasRust, providers.typescript) ∧
      (hasRust = true → ∃ workspace, toolchains.loadRust path = .ok workspace ∧
        providers.rust = some workspace) := by
  unfold Providers.load at h
  cases hfold : files.foldlM (Providers.loadFile toolchains.toHost) (false, Projects.new) with
  | error e =>
    rw [hfold] at h
    cases h
  | ok state =>
    rw [hfold] at h
    have hloaded := foldlM_loadFile (Loaded toolchains.toHost)
      (fun done state file next h hnext => h.loadFile hnext) [] Loaded.new hfold
    rw [List.nil_append] at hloaded
    cases hrust : state.1 with
    | false =>
      simp only [bind, Except.bind, hrust, Bool.false_eq_true, if_false, pure, Except.pure,
        Except.ok.injEq] at h
      rw [← h]
      exact ⟨state.1, hloaded, fun htrue => absurd (hrust.symm.trans htrue) (by decide)⟩
    | true =>
      cases hworkspace : toolchains.loadRust path with
      | error e =>
        simp only [bind, Except.bind, hrust, if_true, hworkspace] at h
        cases h
      | ok workspace =>
        simp only [bind, Except.bind, hrust, if_true, hworkspace, withContext_ok, Except.map,
          pure, Except.pure, Except.ok.injEq] at h
        rw [← h]
        exact ⟨state.1, hloaded, fun _ => ⟨workspace, rfl, rfl⟩⟩

/-! ## The project of a file -/

open Trail (location)

/-- The directory at a place holds a `tsconfig.json`. -/
def configAt (host : Host Program) (place : List Name) : Bool := holds host (place.map some)

/-- The directory of the nearest `tsconfig.json` at or above the place of a file. -/
def nearestProject (host : Host Program) (file : FilePath) : Option (List Name) :=
  match absolute host file.components with
  | .error _ => none
  | .ok path => Trail.nearest (configAt host) path.trail

/-- A TypeScript file of the run with its absolute path. -/
def Lists (host : Host Program) (files : List FilePath) (file : FilePath) (path : AbsolutePath) :
    Prop :=
  file ∈ files ∧ languageOf file = some .TypeScript ∧ absolute host file.components = .ok path

/-- A `..` on the path of a file names the directory above, as it does where every directory on the
    path exists and no `..` follows a symbolic link. -/
def StepsBack (host : Host Program) (files : List FilePath) : Prop :=
  ∀ file path, Lists host files file path → ∀ front, front <+: path.trail →
    holds host front = configAt host (location front)

/-- A directory with a `tsconfig.json` that the path leaves again by `..` is followed on the path
    by one that is at or above the file. -/
def LeavesNoProject (host : Host Program) (path : AbsolutePath) : Prop :=
  ∀ front, front <+: path.trail → configAt host (location front) = true →
    ¬ location front <+: location path.trail →
    ∃ later, front <+: later ∧ later <+: path.trail ∧ configAt host (location later) = true ∧
      location later <+: location path.trail

/-- The front of a path that reaches a place last. -/
def wayTo (place : List Name) (path : AbsolutePath) : Option (List (Option Name)) :=
  Trail.longest (fun front => location front = place) path.trail

/-- Files of one project reach its directory in one way. -/
def OneWay (host : Host Program) (files : List FilePath) : Prop :=
  ∀ file path other otherPath place, Lists host files file path →
    Lists host files other otherPath → nearestProject host file = some place →
    nearestProject host other = some place → wayTo place path = wayTo place otherPath

/-- Every file gets the one provider of its language and its project, and each project is loaded
    once. -/
structure Routed (toolchains : Toolchains Program Workspace) (path : FilePath)
    (files : List FilePath) (providers : Providers Program Workspace) : Prop where
  rust : ∀ file ∈ files, languageOf file = some .Rust →
    ∃ workspace, toolchains.loadRust path = .ok workspace ∧
      providers.forFile toolchains.toHost file .Rust = [.Rust workspace]
  project : ∀ file ∈ files, languageOf file = some .TypeScript →
    ∀ place, nearestProject toolchains.toHost file = some place →
      ∃ provider, providers.forFile toolchains.toHost file .TypeScript = [.TypeScript provider] ∧
        location provider.root.trail = place
  noProject : ∀ file ∈ files, languageOf file = some .TypeScript →
    nearestProject toolchains.toHost file = none →
      providers.forFile toolchains.toHost file .TypeScript = [.NoTypeScriptProject]
  once : (providers.typescript.loads.map fun root => location root.trail).Nodup
  loaded : ∀ place, place ∈ providers.typescript.loads.map (fun root => location root.trail) ↔
    ∃ file ∈ files, languageOf file = some .TypeScript ∧
      nearestProject toolchains.toHost file = some place

section

variable {toolchains : Toolchains Program Workspace} {path : FilePath} {files : List FilePath}
  {providers : Providers Program Workspace} {host : Host Program} {file : FilePath}
  {full : AbsolutePath}

/-- The root is where the path comes last to a directory with a configuration. -/
theorem projectRoot_eq (hsteps : StepsBack host files) (hlists : Lists host files file full) :
    projectRoot host file.components =
      (Trail.lastMarked (configAt host) full.trail).map .mk := by
  unfold projectRoot
  rw [hlists.2.2]
  dsimp only
  rw [discoverRoot_eq, Trail.lastMarked, Trail.longest_congr (hsteps file full hlists)]

theorem nearestProject_eq (hlists : Lists host files file full) :
    nearestProject host file = Trail.nearest (configAt host) full.trail := by
  unfold nearestProject
  rw [hlists.2.2]

/-- A path that leaves no project comes last to the nearest one. -/
theorem nearest_eq (hleaves : LeavesNoProject host full) :
    Trail.nearest (configAt host) full.trail =
      (Trail.lastMarked (configAt host) full.trail).map location := by
  cases hlast : Trail.lastMarked (configAt host) full.trail with
  | none => exact Trail.nearest_eq_none hlast
  | some front =>
    exact Trail.nearest_of_lastMarked hlast ((Trail.lastMarked_above hlast).mpr hleaves)

/-- Where a path comes last to a directory with a configuration, it comes last to that directory. -/
theorem wayTo_of_lastMarked {front : List (Option Name)}
    (h : Trail.lastMarked (configAt host) full.trail = some front) :
    wayTo (location front) full = some front := by
  obtain ⟨hfront, hmarked, hlongest⟩ := Trail.longest_eq_some.mp h
  refine Trail.longest_eq_some.mpr ⟨hfront, decide_eq_true rfl, fun other hother hplace => ?_⟩
  refine hlongest other hother ?_
  show configAt host (location other) = true
  rw [of_decide_eq_true hplace]
  exact hmarked

/-- A relative path has no project where the current directory is unreadable. -/
theorem projectRoot_of_error {e : IoError} (h : absolute host file.components = .error e) :
    projectRoot host file.components = none ∧ nearestProject host file = none := by
  unfold projectRoot nearestProject
  rw [h]
  exact ⟨rfl, rfl⟩

theorem Loaded.get {state : Bool × Projects Program} (h : Loaded host files state)
    {root : AbsolutePath} (hroot : root ∈ state.2.loads) :
    ∃ provider, state.2.get root = some provider ∧ provider.root = root := by
  rw [h.loads] at hroot
  obtain ⟨entry, hentry, hkey⟩ := List.mem_map.mp hroot
  obtain ⟨found, hfound⟩ : ∃ found, state.2.entries.find? (fun entry => entry.1 = root) =
      some found := by
    rw [← Option.isSome_iff_exists, List.find?_isSome]
    exact ⟨entry, hentry, decide_eq_true hkey⟩
  have hsame : found.1 = root := of_decide_eq_true (List.find?_some
    (p := fun entry : AbsolutePath × TypeScriptDecorationProvider Program => entry.1 = root) hfound)
  refine ⟨found.2, ?_, ?_⟩
  · unfold Projects.get
    rw [hfound]
    rfl
  · rw [h.own found (List.mem_of_find?_eq_some hfound), hsame]

/-- A TypeScript file gets the provider of the root that is found for it. -/
theorem forFile_typescript {hasRust : Bool}
    (h : Loaded toolchains.toHost files (hasRust, providers.typescript)) (hfile : file ∈ files)
    (hlanguage : languageOf file = some .TypeScript) {root : AbsolutePath}
    (hroot : projectRoot toolchains.toHost file.components = some root) :
    root ∈ providers.typescript.loads ∧ ∃ provider, provider.root = root ∧
      providers.forFile toolchains.toHost file .TypeScript = [.TypeScript provider] := by
  have hmem := (h.roots root).mpr ⟨file, hfile, hlanguage, hroot⟩
  obtain ⟨provider, hget, hown⟩ := h.get hmem
  refine ⟨hmem, provider, hown, ?_⟩
  unfold Providers.forFile
  dsimp only
  rw [hroot]
  dsimp only
  rw [hget]
  rfl

theorem forFile_noProject
    (hroot : projectRoot toolchains.toHost file.components = none) :
    providers.forFile toolchains.toHost file .TypeScript = [.NoTypeScriptProject] := by
  unfold Providers.forFile
  dsimp only
  rw [hroot]
  rfl

theorem forFile_rust (hload : Providers.load toolchains path files = .ok providers)
    (hfile : file ∈ files) (hlanguage : languageOf file = some .Rust) :
    ∃ workspace, toolchains.loadRust path = .ok workspace ∧
      providers.forFile toolchains.toHost file .Rust = [.Rust workspace] := by
  obtain ⟨hasRust, hloaded, hrust⟩ := load_spec hload
  obtain ⟨workspace, hworkspace, hsome⟩ := hrust (hloaded.rust.mpr ⟨file, hfile, hlanguage⟩)
  refine ⟨workspace, hworkspace, ?_⟩
  unfold Providers.forFile
  dsimp only
  rw [hsome]
  rfl

/-- What each listed TypeScript file comes to, where no path leaves a project. -/
theorem nearestProject_root (hsteps : StepsBack host files)
    (hleaves : ∀ file full, Lists host files file full → LeavesNoProject host full)
    (hfile : file ∈ files) (hlanguage : languageOf file = some .TypeScript) :
    nearestProject host file =
      (projectRoot host file.components).map fun root => location root.trail := by
  cases habsolute : absolute host file.components with
  | error e =>
    obtain ⟨hroot, hnearest⟩ := projectRoot_of_error habsolute
    rw [hroot, hnearest]
    rfl
  | ok full =>
    have hlists : Lists host files file full := ⟨hfile, hlanguage, habsolute⟩
    rw [projectRoot_eq hsteps hlists, nearestProject_eq hlists,
      nearest_eq (hleaves file full hlists), Option.map_map]
    rfl

/-- The paths of files with one project, where no path leaves a project, end their way to it at the
    root that is found. -/
theorem wayTo_root (hsteps : StepsBack host files) (hlists : Lists host files file full)
    {root : AbsolutePath} (hroot : projectRoot host file.components = some root) :
    wayTo (location root.trail) full = some root.trail := by
  rw [projectRoot_eq hsteps hlists] at hroot
  obtain ⟨front, hfront, rfl⟩ := Option.map_eq_some_iff.mp hroot
  exact wayTo_of_lastMarked hfront

theorem lists_of_projectRoot (hfile : file ∈ files)
    (hlanguage : languageOf file = some .TypeScript) {root : AbsolutePath}
    (hroot : projectRoot host file.components = some root) :
    ∃ full, Lists host files file full := by
  obtain ⟨full, habsolute, _⟩ := discoverRoot_of_projectRoot hroot
  exact ⟨full, hfile, hlanguage, habsolute⟩

/-- Where each file gets its own project, its path leaves none. -/
theorem Routed.leavesNoProject (hload : Providers.load toolchains path files = .ok providers)
    (hsteps : StepsBack toolchains.toHost files) (h : Routed toolchains path files providers)
    (hlists : Lists toolchains.toHost files file full) :
    LeavesNoProject toolchains.toHost full ∧
      nearestProject toolchains.toHost file =
        (projectRoot toolchains.toHost file.components).map fun root => location root.trail := by
  obtain ⟨hasRust, hloaded, _⟩ := load_spec hload
  have hroot := projectRoot_eq hsteps hlists
  have hnearest := nearestProject_eq hlists
  cases hlast : Trail.lastMarked (configAt toolchains.toHost) full.trail with
  | none =>
    rw [hlast] at hroot
    refine ⟨fun front hfront hmarked => ?_, ?_⟩
    · have hnot := Trail.longest_eq_none.mp hlast front hfront
      exact absurd (hnot.symm.trans hmarked) (by decide)
    · rw [hnearest, Trail.nearest_eq_none hlast, hroot]
      rfl
  | some front =>
    rw [hlast] at hroot
    obtain ⟨_, provider, hown, hgiven⟩ := forFile_typescript hloaded hlists.1 hlists.2.1 hroot
    cases hplace : nearestProject toolchains.toHost file with
    | none =>
      rw [h.noProject file hlists.1 hlists.2.1 hplace] at hgiven
      cases hgiven
    | some place =>
      obtain ⟨other, hother, hlocation⟩ := h.project file hlists.1 hlists.2.1 place hplace
      rw [hgiven] at hother
      cases hother
      rw [hown] at hlocation
      rw [hnearest] at hplace
      obtain ⟨habove, _, _⟩ := Trail.longest_eq_some.mp hplace
      rw [← hlocation] at habove
      refine ⟨(Trail.lastMarked_above hlast).mp habove, ?_⟩
      rw [hroot, ← hlocation]
      rfl

/-- Each file gets the provider of its own project and each project is loaded once if and only if
    no path leaves a project by `..` for a place that has another or none, and the files of one
    project reach its directory in one way. -/
theorem routes_iff (hload : Providers.load toolchains path files = .ok providers)
    (hsteps : StepsBack toolchains.toHost files) :
    Routed toolchains path files providers ↔
      (∀ file full, Lists toolchains.toHost files file full →
        LeavesNoProject toolchains.toHost full) ∧ OneWay toolchains.toHost files := by
  obtain ⟨hasRust, hloaded, _⟩ := load_spec hload
  constructor
  · intro h
    refine ⟨fun file full hlists => (h.leavesNoProject hload hsteps hlists).1, ?_⟩
    intro file full other otherFull place hlists hother hplace hotherPlace
    -- both roots stand at the place, so they are one
    have hfound := (h.leavesNoProject hload hsteps hlists).2
    have hotherFound := (h.leavesNoProject hload hsteps hother).2
    rw [hplace] at hfound
    rw [hotherPlace] at hotherFound
    obtain ⟨root, hroot, hlocation⟩ := Option.map_eq_some_iff.mp hfound.symm
    obtain ⟨otherRoot, hotherRoot, hotherLocation⟩ := Option.map_eq_some_iff.mp hotherFound.symm
    have hmem := (forFile_typescript hloaded hlists.1 hlists.2.1 hroot).1
    have hotherMem := (forFile_typescript hloaded hother.1 hother.2.1 hotherRoot).1
    have hsame : root = otherRoot :=
      List.inj_on_of_nodup_map h.once hmem hotherMem (hlocation.trans hotherLocation.symm)
    rw [← hlocation, wayTo_root hsteps hlists hroot, hlocation, ← hotherLocation,
      wayTo_root hsteps hother hotherRoot, hsame]
  · intro h
    obtain ⟨hleaves, honeWay⟩ := h
    refine ⟨fun file => forFile_rust hload, ?_, ?_, ?_, ?_⟩
    · intro file hfile hlanguage place hplace
      rw [nearestProject_root hsteps hleaves hfile hlanguage] at hplace
      obtain ⟨root, hroot, hlocation⟩ := Option.map_eq_some_iff.mp hplace
      obtain ⟨_, provider, hown, hgiven⟩ := forFile_typescript hloaded hfile hlanguage hroot
      exact ⟨provider, hgiven, by rw [hown, hlocation]⟩
    · intro file hfile hlanguage hplace
      rw [nearestProject_root hsteps hleaves hfile hlanguage] at hplace
      exact forFile_noProject (Option.map_eq_none_iff.mp hplace)
    · refine hloaded.nodup.map_on fun root hroot other hother hlocation => ?_
      obtain ⟨file, hfile, hlanguage, hfound⟩ := (hloaded.roots root).mp hroot
      obtain ⟨second, hsecond, hsecondLanguage, hsecondFound⟩ := (hloaded.roots other).mp hother
      obtain ⟨full, hlists⟩ := lists_of_projectRoot hfile hlanguage hfound
      obtain ⟨secondFull, hsecondLists⟩ :=
        lists_of_projectRoot hsecond hsecondLanguage hsecondFound
      have hplace := nearestProject_root hsteps hleaves hfile hlanguage
      have hsecondPlace := nearestProject_root hsteps hleaves hsecond hsecondLanguage
      rw [hfound] at hplace
      rw [hsecondFound, Option.map_some, ← hlocation] at hsecondPlace
      have hway := honeWay file full second secondFull (location root.trail) hlists hsecondLists
        hplace hsecondPlace
      rw [wayTo_root hsteps hlists hfound, hlocation,
        wayTo_root hsteps hsecondLists hsecondFound] at hway
      cases root
      cases other
      exact congrArg AbsolutePath.mk (Option.some.inj hway)
    · intro place
      rw [List.mem_map]
      constructor
      · rintro ⟨root, hroot, rfl⟩
        obtain ⟨file, hfile, hlanguage, hfound⟩ := (hloaded.roots root).mp hroot
        refine ⟨file, hfile, hlanguage, ?_⟩
        rw [nearestProject_root hsteps hleaves hfile hlanguage, hfound]
        rfl
      · rintro ⟨file, hfile, hlanguage, hplace⟩
        rw [nearestProject_root hsteps hleaves hfile hlanguage] at hplace
        obtain ⟨root, hroot, hlocation⟩ := Option.map_eq_some_iff.mp hplace
        exact ⟨root, (hloaded.roots root).mpr ⟨file, hfile, hlanguage, hroot⟩, hlocation⟩

end

/-! ## Runs in a tree of files -/

/-- A path without `..` leaves nothing. -/
theorem leavesNoProject_of_names (host : Host Program) (names : List Name) :
    LeavesNoProject host ⟨names.map some⟩ := by
  intro front hfront _ habove
  obtain ⟨rest, hrest⟩ := hfront
  obtain ⟨before, after, hnames, hbefore, _⟩ := List.map_eq_append_iff.mp hrest.symm
  rw [← hbefore, hnames, Trail.location_map_some, Trail.location_map_some] at habove
  exact absurd (List.prefix_append before after) habove

/-- Toolchains over a tree of files with no symbolic link, where every load succeeds. -/
def inTree (current : List Name) (tree : List (List Name)) : Toolchains Unit Unit :=
  { currentDir := .ok ⟨current.map some⟩
    isFile := fun path => tree.contains (location path.trail)
    newProgram := fun _ => .ok ()
    loadRust := fun _ => .ok () }

theorem stepsBack_inTree (current : List Name) (tree : List (List Name)) (files : List FilePath) :
    StepsBack (inTree current tree).toHost files := by
  intro file path _ front _
  show tree.contains (location (front ++ [some CONFIG_FILE])) =
    tree.contains (location ((location front).map some ++ [some CONFIG_FILE]))
  rw [Trail.location_concat, Trail.location_concat, Trail.location_map_some]

/-- `/home/proj/tsconfig.json`, seen from its directory. -/
def projectTree : Toolchains Unit Unit :=
  inTree ["home".toList, "proj".toList] [["home".toList, "proj".toList, CONFIG_FILE]]

def projectRootPath : AbsolutePath := ⟨[some "home".toList, some "proj".toList]⟩

/-- What a run over one file of the project loads. -/
def projectProviders : Providers Unit Unit :=
  { rust := none, typescript := ⟨[(projectRootPath, ⟨(), projectRootPath⟩)], [projectRootPath]⟩ }

theorem file_in_project :
    Routed projectTree ⟨"."⟩ [⟨"src/main.ts"⟩] projectProviders := by
  refine (routes_iff (by rfl) (stepsBack_inTree _ _ _)).mpr ⟨?_, ?_⟩
  · intro file full hlists
    obtain ⟨hfile, _, habsolute⟩ := hlists
    rw [List.mem_singleton.mp hfile] at habsolute
    obtain rfl := Except.ok.inj habsolute
    exact leavesNoProject_of_names _
      ["home".toList, "proj".toList, "src".toList, "main.ts".toList]
  · intro file full other otherFull place hlists hother _ _
    obtain ⟨hfile, _, habsolute⟩ := hlists
    obtain ⟨hsecond, _, hsecondAbsolute⟩ := hother
    rw [List.mem_singleton.mp hfile] at habsolute
    rw [List.mem_singleton.mp hsecond] at hsecondAbsolute
    rw [Except.ok.inj (habsolute.symm.trans hsecondAbsolute)]

/-- `../other/main.ts` has no project and gets that of `/home/proj`. -/
theorem file_beside_project :
    Providers.load projectTree ⟨"../other"⟩ [⟨"../other/main.ts"⟩] = .ok projectProviders ∧
      StepsBack projectTree.toHost [⟨"../other/main.ts"⟩] ∧
      nearestProject projectTree.toHost ⟨"../other/main.ts"⟩ = none ∧
      projectProviders.forFile projectTree.toHost ⟨"../other/main.ts"⟩ .TypeScript =
        [.TypeScript ⟨(), projectRootPath⟩] ∧
      ¬ Routed projectTree ⟨"../other"⟩ [⟨"../other/main.ts"⟩] projectProviders := by
  have hnearest : nearestProject projectTree.toHost ⟨"../other/main.ts"⟩ = none := by
    decide
  have hgiven : projectProviders.forFile projectTree.toHost ⟨"../other/main.ts"⟩ .TypeScript =
      [.TypeScript ⟨(), projectRootPath⟩] := by rfl
  refine ⟨by rfl, stepsBack_inTree _ _ _, hnearest, hgiven, fun h => ?_⟩
  have hnone := h.noProject ⟨"../other/main.ts"⟩ (List.mem_singleton_self _) (by decide)
    hnearest
  rw [hgiven] at hnone
  cases hnone

end Stiles.Loading
