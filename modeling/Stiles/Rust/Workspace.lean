import Stiles.Core.Pipeline
import Stiles.Rust.Described
import Stiles.Types.PathComponents

/-
  The workspace of the Rust provider, and what a lint reads in a run over one of its files
  (`load`, `give_text_to_files_that_have_none` and `decorate` of `provider.rs`).

  rust-analyzer panics when it reads a file that has no text, and the load leaves a file that is
  not UTF-8 without one. `giveTextToFilesThatHaveNone` gives such a file its lossy text. `decorate`
  then asks in a fixed order whether the file is known, excluded, part of a crate and up to date.

  * `texts_repaired`: after the repair every file that a question reads has a text.
  * `decorate_verdict`: no question panics, and the verdict is the one that the workspace supports.
  * `workspace_run`: which files of a run are walked, why the others are not, and what the lints
    read there.
-/

namespace Stiles.RustProvider

/-! ## The workspace -/

/-- The texts that the database of rust-analyzer holds, by file. -/
abbrev Texts := Nat → Option String

inductive FileExcluded where
  | Yes
  | No
deriving DecidableEq, Repr

/-- The files that rust-analyzer knows. -/
structure Vfs where
  fileId : FilePath → Option (Nat × FileExcluded)
  /-- The files with contents, each with its path if it is a real one. -/
  iter : List (Nat × Option FilePath)

inductive LoadRustWorkspaceError where
  | UnreadableCurrentDirectory (source : IoError)
  | Undiscovered (root : FilePath) (source : Anyhow)
  | Unresolved (root : FilePath) (source : Anyhow)
  | BuildScriptsFailed (source : Anyhow)
  | DatabaseFailed (source : Anyhow)
deriving DecidableEq, Repr

/-- What a load asks of the operating system, cargo and rust-analyzer. -/
structure Host where
  Manifest : Type
  Workspace : Type
  currentDir : Except IoError FilePath
  /-- `std::path::absolute`. -/
  absolute : FilePath → Except IoError FilePath
  read : FilePath → Except IoError ByteArray
  discoverSingle : FilePath → AnyhowResult Manifest
  loadProject : Manifest → AnyhowResult Workspace
  /-- The workspace with the output of its build scripts. -/
  runBuildScripts : Workspace → AnyhowResult Workspace
  workspaceRoot : Workspace → FilePath
  loadWorkspace : Workspace → AnyhowResult (Texts × Vfs)
  /-- `String::from_utf8_lossy`. -/
  fromUtf8Lossy : ByteArray → String

structure RustDecorationProvider where
  texts : Texts
  /-- A thread panicked while it held the database. -/
  poisoned : Bool
  vfs : Vfs
  root : FilePath

def NAME : ProviderName := ⟨"rust"⟩

variable (host : Host)

/-- The lossy text of a file below `root` that has none. -/
def lossyText (root : FilePath) (file : Nat × Option FilePath) : Option (Nat × String) :=
  match file.2 with
  | none => none
  | some path =>
    if root.components.isPrefixOf path.components then
      match host.read path with
      | .error _ => none
      | .ok bytes =>
        if bytes.validateUTF8 then none else some (file.1, host.fromUtf8Lossy bytes)
    else none

def changeFile (texts : Texts) (change : Nat × String) : Texts :=
  fun id => if id = change.1 then some change.2 else texts id

def giveTextToFilesThatHaveNone (texts : Texts) (vfs : Vfs) (root : FilePath) : Texts :=
  let lossy := vfs.iter.filterMap (lossyText host root)
  lossy.foldl changeFile texts

def load (workspaceRoot : FilePath) : Except LoadRustWorkspaceError RustDecorationProvider :=
  match host.currentDir with
  | .error source => .error (.UnreadableCurrentDirectory source)
  | .ok cwd =>
    let discoverFrom := cwd.join workspaceRoot
    match host.discoverSingle discoverFrom with
    | .error source => .error (.Undiscovered workspaceRoot source)
    | .ok manifest =>
      match host.loadProject manifest with
      | .error source => .error (.Unresolved workspaceRoot source)
      | .ok workspace =>
        match host.runBuildScripts workspace with
        | .error source => .error (.BuildScriptsFailed source)
        | .ok workspace =>
          let root := host.workspaceRoot workspace
          match host.loadWorkspace workspace with
          | .error source => .error (.DatabaseFailed source)
          | .ok (texts, vfs) =>
            .ok
              { texts := giveTextToFilesThatHaveNone host texts vfs root
                poisoned := false
                vfs
                root }

/-! ## The verdict on a file -/

variable {hir : Hir}

/-- The questions about a file, which read the texts of some files. -/
structure Analyzer (hir : Hir) where
  reads : Nat → List Nat
  fileToModuleDef : Texts → Nat → Except Panic (Option hir.Module)
  fileText : Texts → Nat → Except Panic String
  /-- What the resolution of the targets of a file asks, in the module of the file. -/
  context : Texts → Nat → hir.Module → Except Panic (DecorateCtx hir)

/-- A question panics only where a file that it reads has no text. -/
structure Analyzer.Reading (analyzer : Analyzer hir) : Prop where
  fileToModuleDef : ∀ (texts : Texts) (id : Nat), (∀ other ∈ analyzer.reads id, texts other ≠ none) →
    ∃ module, analyzer.fileToModuleDef texts id = .ok module
  fileText : ∀ (texts : Texts) (id : Nat) (text : String), texts id = some text →
    analyzer.fileText texts id = .ok text
  context : ∀ (texts : Texts) (id : Nat) (module : hir.Module),
    (∀ other ∈ analyzer.reads id, texts other ≠ none) →
      ∃ ctx, analyzer.context texts id module = .ok ctx
  self : ∀ id, id ∈ analyzer.reads id

namespace RustDecorationProvider

variable [DecidableEq hir.Enum] (self : RustDecorationProvider) (analyzer : Analyzer hir)
  (KEY : RustDecoration → DecorationKey) (fields : FieldNames)

def gapForUnknownFile (filePath : FilePath) : CoverageGap :=
  if self.root.components.isPrefixOf filePath.components then .Unreachable self.root
  else .OutsideRoot self.root

/-- The part of `decorate` that asks the database. -/
def decorateFile (fileId : Nat) (tree : DecoratedTree (rustDecorations KEY Value)) :
    Except Panic (Coverage (rustDecorations KEY Value)) :=
  match analyzer.fileToModuleDef self.texts fileId with
  | .error panic => .error panic
  | .ok none => .ok (.NotCovered (.Unreachable self.root))
  | .ok (some module) =>
    match analyzer.fileText self.texts fileId with
    | .error panic => .error panic
    | .ok dbText =>
      if dbText ≠ tree.source then .ok (.NotCovered .StaleSource)
      else
        match analyzer.context self.texts fileId module with
        | .error panic => .error panic
        | .ok ctx => .ok (.Covered (resolveTargets ctx.answers (collectTargets fields tree.tree [])))

def decorate (tree : DecoratedTree (rustDecorations KEY Value)) :
    Except Panic (Except DecorateTreeError (Coverage (rustDecorations KEY Value))) :=
  match host.absolute tree.file with
  | .error source => .ok (.error (.UnresolvablePath tree.file source))
  | .ok filePath =>
    match self.vfs.fileId filePath with
    | none => .ok (.ok (.NotCovered (self.gapForUnknownFile filePath)))
    | some (_, .Yes) => .ok (.ok (.NotCovered (.ExcludedByToolchain self.root)))
    | some (fileId, .No) =>
      if self.poisoned then .ok (.error .PoisonedDatabase)
      else (self.decorateFile analyzer KEY fields fileId tree).map .ok

end RustDecorationProvider

/-! ## The repair -/

/-- The changed files have a text, and no file loses its own. -/
theorem foldl_changeFile_ne_none (changes : List (Nat × String)) (texts : Texts) (id : Nat) :
    changes.foldl changeFile texts id ≠ none ↔ texts id ≠ none ∨ id ∈ changes.map Prod.fst := by
  induction changes generalizing texts with
  | nil => simp
  | cons change rest ih =>
    rw [List.foldl_cons, ih, List.map_cons, List.mem_cons, ← or_assoc]
    refine or_congr_left ?_
    unfold changeFile
    by_cases hid : id = change.1 <;> simp [hid]

variable {host : Host} {analyzer : Analyzer hir}

/-- What a load leaves: of the files that the questions about a known file read, those without a
    text are below the root, and they can be read, but not as UTF-8. -/
def Host.LeavesLossy (host : Host) (analyzer : Analyzer hir) : Prop :=
  ∀ workspace texts vfs, host.loadWorkspace workspace = .ok (texts, vfs) →
    ∀ file id, vfs.fileId file = some (id, .No) → ∀ other ∈ analyzer.reads id, texts other = none →
      ∃ path bytes, (other, some path) ∈ vfs.iter ∧
        path.startsWith (host.workspaceRoot workspace) ∧ host.read path = .ok bytes ∧
        bytes.validateUTF8 = false

/-- Every file that a question reads has a text, and no thread has panicked. -/
structure RustDecorationProvider.Whole (provider : RustDecorationProvider) (analyzer : Analyzer hir) :
    Prop where
  texts : ∀ file id, provider.vfs.fileId file = some (id, .No) → ∀ other ∈ analyzer.reads id,
    provider.texts other ≠ none
  poisoned : provider.poisoned = false

theorem lossyText_of_lossy {root path : FilePath} {id : Nat} {bytes : ByteArray}
    (hroot : path.startsWith root) (hread : host.read path = .ok bytes)
    (hlossy : bytes.validateUTF8 = false) :
    lossyText host root (id, some path) = some (id, host.fromUtf8Lossy bytes) := by
  have hprefix : root.components.isPrefixOf path.components = true :=
    List.isPrefixOf_iff_prefix.mpr hroot
  unfold lossyText
  dsimp only
  rw [if_pos hprefix, hread]
  dsimp only
  rw [if_neg (Bool.eq_false_iff.mp hlossy)]

theorem load_ok {workspaceRoot : FilePath} {loaded : RustDecorationProvider}
    (h : load host workspaceRoot = .ok loaded) :
    ∃ workspace texts vfs, host.loadWorkspace workspace = .ok (texts, vfs) ∧
      loaded =
        { texts := giveTextToFilesThatHaveNone host texts vfs (host.workspaceRoot workspace)
          poisoned := false
          vfs
          root := host.workspaceRoot workspace } := by
  unfold load at h
  split at h
  · cases h
  · dsimp only at h
    split at h
    · cases h
    · split at h
      · cases h
      · split at h
        · cases h
        · rename_i workspace _
          split at h
          · cases h
          · rename_i texts vfs hload
            exact ⟨workspace, texts, vfs, hload, (Except.ok.inj h).symm⟩

/-- What is loaded is whole. -/
theorem whole_of_load (hleaves : host.LeavesLossy analyzer) {workspaceRoot : FilePath}
    {loaded : RustDecorationProvider} (h : load host workspaceRoot = .ok loaded) :
    loaded.Whole analyzer := by
  obtain ⟨workspace, texts, vfs, hload, rfl⟩ := load_ok h
  refine ⟨fun file id hfile other hother => ?_, rfl⟩
  refine (foldl_changeFile_ne_none _ _ _).mpr ?_
  by_cases htext : texts other = none
  · obtain ⟨path, bytes, hiter, hroot, hread, hlossy⟩ :=
      hleaves workspace texts vfs hload file id hfile other hother htext
    refine Or.inr (List.mem_map.mpr ⟨(other, host.fromUtf8Lossy bytes), ?_, rfl⟩)
    exact List.mem_filterMap.mpr ⟨_, hiter, lossyText_of_lossy hroot hread hlossy⟩
  · exact Or.inl htext

/-! ## The verdicts -/

section Verdicts

variable (provider : RustDecorationProvider) (analyzer)

/-- The file is known, not excluded, part of a crate, and has the text that was parsed. -/
structure Covers (file : FilePath) (source : String) (id : Nat) (module : hir.Module) : Prop where
  known : provider.vfs.fileId file = some (id, .No)
  module : analyzer.fileToModuleDef provider.texts id = .ok (some module)
  text : provider.texts id = some source

/-- Why a file is not covered. -/
inductive Declines (file : FilePath) (source : String) : CoverageGap → Prop where
  | outside (h : provider.vfs.fileId file = none) (hroot : ¬file.startsWith provider.root) :
    Declines file source (.OutsideRoot provider.root)
  | unknown (h : provider.vfs.fileId file = none) (hroot : file.startsWith provider.root) :
    Declines file source (.Unreachable provider.root)
  | excluded (id : Nat) (h : provider.vfs.fileId file = some (id, .Yes)) :
    Declines file source (.ExcludedByToolchain provider.root)
  | unreachable (id : Nat) (h : provider.vfs.fileId file = some (id, .No))
    (hmodule : analyzer.fileToModuleDef provider.texts id = .ok none) :
    Declines file source (.Unreachable provider.root)
  | stale (id : Nat) (module : hir.Module) (h : provider.vfs.fileId file = some (id, .No))
    (hmodule : analyzer.fileToModuleDef provider.texts id = .ok (some module))
    (htext : provider.texts id ≠ some source) :
    Declines file source .StaleSource

variable {provider analyzer}

/-- A file is not both covered and declined. -/
theorem Covers.not_declines {file : FilePath} {source : String} {id : Nat} {module : hir.Module}
    (h : Covers analyzer provider file source id module) (gap : CoverageGap) :
    ¬Declines analyzer provider file source gap := by
  intro hgap
  have hknown := h.known
  cases hgap with
  | outside hfile _ =>
    rw [hfile] at hknown
    cases hknown
  | unknown hfile _ =>
    rw [hfile] at hknown
    cases hknown
  | excluded _ hfile =>
    rw [hfile] at hknown
    cases hknown
  | unreachable other hfile hmodule =>
    rw [hfile] at hknown
    cases hknown
    cases hmodule.symm.trans h.module
  | stale other module hfile _ htext =>
    rw [hfile] at hknown
    cases hknown
    exact htext h.text

/-- A file is declined for one reason. -/
theorem Declines.unique {file : FilePath} {source : String} {gap other : CoverageGap}
    (h : Declines analyzer provider file source gap)
    (h' : Declines analyzer provider file source other) : gap = other := by
  cases h with
  | outside hfile hroot =>
    cases h' with
    | outside => rfl
    | unknown _ hroot' => exact absurd hroot' hroot
    | excluded _ hfile' => cases hfile.symm.trans hfile'
    | unreachable _ hfile' => cases hfile.symm.trans hfile'
    | stale _ _ hfile' => cases hfile.symm.trans hfile'
  | unknown hfile hroot =>
    cases h' with
    | outside _ hroot' => exact absurd hroot hroot'
    | unknown => rfl
    | excluded _ hfile' => cases hfile.symm.trans hfile'
    | unreachable _ hfile' => cases hfile.symm.trans hfile'
    | stale _ _ hfile' => cases hfile.symm.trans hfile'
  | excluded id hfile =>
    cases h' with
    | outside hfile' => cases hfile.symm.trans hfile'
    | unknown hfile' => cases hfile.symm.trans hfile'
    | excluded => rfl
    | unreachable _ hfile' => cases hfile.symm.trans hfile'
    | stale _ _ hfile' => cases hfile.symm.trans hfile'
  | unreachable id hfile hmodule =>
    cases h' with
    | outside hfile' => cases hfile.symm.trans hfile'
    | unknown hfile' => cases hfile.symm.trans hfile'
    | excluded _ hfile' => cases hfile.symm.trans hfile'
    | unreachable => rfl
    | stale _ _ hfile' hmodule' =>
      cases hfile.symm.trans hfile'
      cases hmodule.symm.trans hmodule'
  | stale id module hfile hmodule =>
    cases h' with
    | outside hfile' => cases hfile.symm.trans hfile'
    | unknown hfile' => cases hfile.symm.trans hfile'
    | excluded _ hfile' => cases hfile.symm.trans hfile'
    | unreachable _ hfile' hmodule' =>
      cases hfile.symm.trans hfile'
      cases hmodule.symm.trans hmodule'
    | stale => rfl

theorem gapForUnknownFile_declines {file : FilePath} {source : String}
    (h : provider.vfs.fileId file = none) :
    Declines analyzer provider file source (provider.gapForUnknownFile file) := by
  unfold RustDecorationProvider.gapForUnknownFile
  split
  · rename_i hroot
    exact .unknown h (List.isPrefixOf_iff_prefix.mp hroot)
  · rename_i hroot
    exact .outside h fun hprefix => hroot (List.isPrefixOf_iff_prefix.mpr hprefix)

variable [DecidableEq hir.Enum] {KEY : RustDecoration → DecorationKey} {fields : FieldNames}

/-- A verdict that the workspace supports. -/
inductive Supports (analyzer : Analyzer hir) (provider : RustDecorationProvider) (fields : FieldNames)
    (file : FilePath) (tree : DecoratedTree (rustDecorations KEY Value)) :
    Coverage (rustDecorations KEY Value) → Prop where
  | covered (id : Nat) (module : hir.Module) (ctx : DecorateCtx hir)
    (h : Covers analyzer provider file tree.source id module)
    (hctx : analyzer.context provider.texts id module = .ok ctx) :
    Supports analyzer provider fields file tree (.Covered (decorate fields ctx.answers tree.tree))
  | declined (gap : CoverageGap) (h : Declines analyzer provider file tree.source gap) :
    Supports analyzer provider fields file tree (.NotCovered gap)

/-- The questions about a known file have answers, and they support the verdict. -/
theorem decorateFile_supports (hreading : analyzer.Reading) (hwhole : provider.Whole analyzer)
    {file : FilePath} {id : Nat} (h : provider.vfs.fileId file = some (id, .No))
    (tree : DecoratedTree (rustDecorations KEY Value)) :
    ∃ coverage, provider.decorateFile analyzer KEY fields id tree = .ok coverage ∧
      Supports analyzer provider fields file tree coverage := by
  have hreads := hwhole.texts file id h
  unfold RustDecorationProvider.decorateFile
  obtain ⟨found, hfound⟩ := hreading.fileToModuleDef provider.texts id hreads
  rw [hfound]
  cases found with
  | none => exact ⟨_, rfl, .declined _ (.unreachable id h hfound)⟩
  | some module =>
    obtain ⟨text, htext⟩ := Option.ne_none_iff_exists'.mp (hreads id (hreading.self id))
    dsimp only
    rw [hreading.fileText provider.texts id text htext]
    dsimp only
    by_cases hsame : text = tree.source
    · obtain ⟨ctx, hctx⟩ := hreading.context provider.texts id module hreads
      rw [if_neg (not_not.mpr hsame), hctx]
      exact ⟨_, rfl, .covered id module ctx ⟨h, hfound, hsame ▸ htext⟩ hctx⟩
    · rw [if_pos hsame]
      refine ⟨_, rfl, .declined _ (.stale id module h hfound fun hsource => hsame ?_)⟩
      exact Option.some.inj (htext.symm.trans hsource)

/-- No question panics, and the verdict is one that the workspace supports. -/
theorem decorate_verdict (host : Host) (fields : FieldNames) (hreading : analyzer.Reading)
    (hwhole : provider.Whole analyzer)
    (tree : DecoratedTree (rustDecorations KEY Value)) :
    ∃ verdict, provider.decorate host analyzer KEY fields tree = .ok verdict ∧
      (∀ e, host.absolute tree.file = .error e → verdict = .error (.UnresolvablePath tree.file e)) ∧
      ∀ file, host.absolute tree.file = .ok file →
        ∃ coverage, verdict = .ok coverage ∧ Supports analyzer provider fields file tree coverage := by
  unfold RustDecorationProvider.decorate
  cases habsolute : host.absolute tree.file with
  | error e =>
    refine ⟨_, rfl, fun e' he => ?_, nofun⟩
    rw [Except.error.inj he]
  | ok file =>
    have hok : ∀ coverage, Supports analyzer provider fields file tree coverage →
        ∃ verdict, (.ok (.ok coverage) : Except Panic (Except DecorateTreeError _)) = .ok verdict ∧
          (∀ e, (.ok file : Except IoError FilePath) = .error e →
            verdict = .error (.UnresolvablePath tree.file e)) ∧
          ∀ file', (.ok file : Except IoError FilePath) = .ok file' →
            ∃ coverage', verdict = .ok coverage' ∧
              Supports analyzer provider fields file' tree coverage' := by
      intro coverage hsupports
      refine ⟨_, rfl, nofun, fun file' hfile' => ⟨coverage, rfl, ?_⟩⟩
      rw [← Except.ok.inj hfile']
      exact hsupports
    dsimp only
    cases hfile : provider.vfs.fileId file with
    | none => exact hok _ (.declined _ (gapForUnknownFile_declines hfile))
    | some found =>
      obtain ⟨id, excluded⟩ := found
      cases excluded with
      | Yes => exact hok _ (.declined _ (.excluded id hfile))
      | No =>
        have hfound : ∃ coverage, provider.decorateFile analyzer KEY fields id tree = .ok coverage ∧
            Supports analyzer provider fields file tree coverage :=
          decorateFile_supports hreading hwhole hfile tree
        obtain ⟨coverage, hcoverage, hsupports⟩ := hfound
        dsimp only
        rw [hwhole.poisoned, if_neg Bool.false_ne_true, hcoverage]
        exact hok _ hsupports

end Verdicts

/-! ## A run over one file -/

section Runs

variable [DecidableEq hir.Enum] {KEY : RustDecoration → DecorationKey} {fields : FieldNames}
  {provider : RustDecorationProvider} {p : DecorationProvider (rustDecorations KEY Value)}
  {pipeline : Pipeline} {source : String} {path file : FilePath} {tree : SyntaxTree}
  (lints : List (Lint (rustDecorations KEY Value)))

/-- The answer of a provider that answers what the workspace does. -/
theorem answer_supports (hreading : analyzer.Reading) (hwhole : provider.Whole analyzer)
    (hp : ∀ tree, provider.decorate host analyzer KEY fields tree = .ok (p.decorate tree))
    (parsed : DecoratedTree (rustDecorations KEY Value)) :
    (∀ e, host.absolute parsed.file = .error e →
      p.decorate parsed = .error (.UnresolvablePath parsed.file e)) ∧
    ∀ file, host.absolute parsed.file = .ok file → ∃ coverage,
      p.decorate parsed = .ok coverage ∧ Supports analyzer provider fields file parsed coverage := by
  obtain ⟨verdict, hverdict, herror, hok⟩ := decorate_verdict host fields hreading hwhole parsed
  obtain rfl := Except.ok.inj ((hp parsed).symm.trans hverdict)
  exact ⟨herror, hok⟩

omit [DecidableEq hir.Enum] in
/-- A run over a file that is declined. -/
theorem run_declined (hparse : pipeline.parse source = some tree) {gap : CoverageGap}
    (hp : p.decorate (DecoratedTree.new tree pipeline.language source path) =
      .ok (.NotCovered gap))
    (h : Declines analyzer provider file source gap) :
    let ran := runOnSource pipeline source path [p] lints
    (∀ other, ran.result = .error (.Uncovered ⟨path, [(p.name, other)]⟩) ↔
      Declines analyzer provider file source other) ∧ ran.walked = none := by
  obtain ⟨-, hgaps, hwalked⟩ := runOnSource_one_gap hparse hp
  exact ⟨fun other => (hgaps other).trans ⟨fun hsame => hsame ▸ h, h.unique⟩, hwalked⟩

/-- A run over a file that is covered: what a lint reads was resolved for a target. -/
theorem run_covered (hkeys : Function.Injective KEY)
    (hparse : pipeline.parse source = some tree) (hids : tree.ids.Nodup) {ctx : DecorateCtx hir}
    (hp : p.decorate (DecoratedTree.new tree pipeline.language source path) =
      .ok (.Covered (decorate fields ctx.answers tree))) :
    let ran := runOnSource pipeline source path [p] lints
    (∀ gap, ran.result ≠ .error (.Uncovered ⟨path, [(p.name, gap)]⟩)) ∧
    ∃ walked, ran.walked = some walked ∧ ∀ c ∈ walked.2.calls, c.arg.source = source ∧
      ∀ (T : RustDecoration) (value : Value T), c.arg.decoration T = some value ↔
        ∃ target ∈ collectTargets fields tree [],
          DecorateCtx.entry KEY c.arg.id T value ∈ ctx.entriesOf KEY target := by
  obtain ⟨-, hgaps, walked, hwalked, hreads⟩ :=
    runOnSource_one_reads hparse wellSealed_decorate hp
  refine ⟨hgaps, walked, hwalked, fun c hc => ⟨(hreads c hc).1, fun T value => ?_⟩⟩
  rw [(hreads c hc).2 T]
  exact get_decorate hkeys hids

/-- A workspace that loaded never panics over a file. Of a run over a file, the lints walk it
    exactly if the workspace covers it: it is known, not excluded, part of a crate and unchanged.
    Then every node that they see has the text that was resolved, and reads of each type what was
    resolved for its target. Otherwise no lint is called, and the run ends with the one gap that
    holds of the file. -/
theorem workspace_run (hreading : analyzer.Reading) (hleaves : host.LeavesLossy analyzer)
    (hkeys : Function.Injective KEY) {workspaceRoot : FilePath}
    (hload : load host workspaceRoot = .ok provider) (fields : FieldNames) :
    (∀ parsed, ∃ verdict, provider.decorate host analyzer KEY fields parsed = .ok verdict) ∧
    ∀ (p : DecorationProvider (rustDecorations KEY Value)),
      (∀ parsed, provider.decorate host analyzer KEY fields parsed = .ok (p.decorate parsed)) →
      ∀ (pipeline : Pipeline) (source : String) (path : FilePath) (tree : SyntaxTree)
        (lints : List (Lint (rustDecorations KEY Value))),
        pipeline.parse source = some tree → tree.ids.Nodup →
        let ran := runOnSource pipeline source path [p] lints
        (∀ e, host.absolute path = .error e →
          ran.result = .error (.ProviderFailed p.name (.UnresolvablePath path e)) ∧
            ran.walked = none) ∧
        ∀ file, host.absolute path = .ok file →
          (∀ gap, ran.result = .error (.Uncovered ⟨path, [(p.name, gap)]⟩) ↔
            Declines analyzer provider file source gap) ∧
          (ran.walked.isSome = true ↔ ∃ id module, Covers analyzer provider file source id module) ∧
          ((¬∃ id module, Covers analyzer provider file source id module) → ran.walked = none ∧
            ∃ gap, Declines analyzer provider file source gap ∧
              ran.result = .error (.Uncovered ⟨path, [(p.name, gap)]⟩)) ∧
          ∀ id module, Covers analyzer provider file source id module →
            ∃ ctx walked, analyzer.context provider.texts id module = .ok ctx ∧
              ran.walked = some walked ∧ ∀ c ∈ walked.2.calls, c.arg.source = source ∧
                ∀ (T : RustDecoration) (value : Value T), c.arg.decoration T = some value ↔
                  ∃ target ∈ collectTargets fields tree [],
                    DecorateCtx.entry KEY c.arg.id T value ∈ ctx.entriesOf KEY target := by
  have hwhole := whole_of_load hleaves hload
  refine ⟨fun parsed => ?_, fun p hp pipeline source path tree lints hparse hids => ?_⟩
  · obtain ⟨verdict, hverdict, -⟩ := decorate_verdict host fields hreading hwhole parsed
    exact ⟨verdict, hverdict⟩
  · intro ran
    obtain ⟨herror, hok⟩ := answer_supports hreading hwhole hp
      (DecoratedTree.new tree pipeline.language source path)
    refine ⟨fun e he => ?_, fun file hfile => ?_⟩
    · have hran : ran = _ := runOnSource_one_fails hparse (herror e he)
      rw [hran]
      exact ⟨rfl, rfl⟩
    · obtain ⟨coverage, hcoverage, hsupports⟩ := hok file hfile
      cases hsupports with
      | declined gap hgap =>
        obtain ⟨hgaps, hwalked⟩ := run_declined lints hparse hcoverage hgap
        refine ⟨hgaps, ?_, fun _ => ⟨hwalked, gap, hgap, (hgaps gap).mpr hgap⟩,
          fun id module h => absurd hgap (h.not_declines gap)⟩
        rw [hwalked]
        refine ⟨fun h => absurd h Bool.false_ne_true, fun h => ?_⟩
        obtain ⟨id, module, hcovers⟩ := h
        exact absurd hgap (hcovers.not_declines gap)
      | covered id module ctx hcovers hctx =>
        obtain ⟨hgaps, walked, hwalked, hreads⟩ :=
          run_covered lints hkeys hparse hids hcoverage
        refine ⟨fun gap => ?_, ?_, fun hnot => absurd ⟨id, module, hcovers⟩ hnot,
          fun other module' hother => ?_⟩
        · exact iff_of_false (hgaps gap) (hcovers.not_declines gap)
        · rw [hwalked]
          exact iff_of_true rfl ⟨id, module, hcovers⟩
        · have hsame := hcovers.known.symm.trans hother.known
          obtain rfl : id = other := (Prod.mk.inj (Option.some.inj hsame)).1
          have hmodules := hcovers.module.symm.trans hother.module
          obtain rfl : module = module' := Option.some.inj (Except.ok.inj hmodules)
          exact ⟨ctx, walked, hctx, hwalked, hreads⟩

end Runs

/-! ## A crate with a file that is not UTF-8 -/

def mainSource : String := "fn main() -> Result<(), Error> { die() }"

/-- The crate includes its notes, which are not UTF-8. -/
def mainHost : Host where
  Manifest := Unit
  Workspace := Unit
  currentDir := .ok ⟨"/app"⟩
  absolute path := .ok path
  read path := .ok (if path = ⟨"/app/notes.txt"⟩ then ⟨#[0xff]⟩ else mainSource.toUTF8)
  discoverSingle _ := .ok ()
  loadProject _ := .ok ()
  runBuildScripts _ := .ok ()
  workspaceRoot _ := ⟨"/app"⟩
  loadWorkspace _ := .ok
    (fun id => if id = 0 then some mainSource else none,
      { fileId := fun path => if path = ⟨"/app/main.rs"⟩ then some (0, .No) else none
        iter := [(0, some ⟨"/app/main.rs"⟩), (1, some ⟨"/app/notes.txt"⟩)] })
  fromUtf8Lossy _ := "\uFFFD"

/-- The answer of a question about the file that also reads the notes. -/
def readingNotes {α : Type*} (texts : Texts) (id : Nat) (answer : α) : Except Panic α :=
  match texts id, texts 1 with
  | some _, some _ => .ok answer
  | _, _ => .error ⟨"no text"⟩

theorem readingNotes_ok {α : Type*} {texts : Texts} {id : Nat}
    (h : ∀ other ∈ [id, 1], texts other ≠ none) (answer : α) :
    ∃ found, readingNotes texts id answer = .ok found := by
  obtain ⟨own, hown⟩ := Option.ne_none_iff_exists'.mp (h id List.mem_cons_self)
  obtain ⟨notes, hnotes⟩ := Option.ne_none_iff_exists'.mp
    (h 1 (List.mem_cons_of_mem _ List.mem_cons_self))
  refine ⟨answer, ?_⟩
  unfold readingNotes
  rw [hown, hnotes]

def mainAnalyzer : Analyzer mainHir where
  reads id := [id, 1]
  fileToModuleDef texts id := readingNotes texts id (some MainCrate.app)
  fileText texts id :=
    match texts id with
    | some text => .ok text
    | none => .error ⟨"no text"⟩
  context texts id _ := readingNotes texts id mainCtx

theorem workspace_run_main : ∃ loaded, load mainHost ⟨"."⟩ = .ok loaded ∧
    ∀ p : DecorationProvider (rustDecorations rustKey Value),
      p.name = NAME →
      (∀ parsed, loaded.decorate mainHost mainAnalyzer rustKey (fun _ => []) parsed =
        .ok (p.decorate parsed)) →
      (runOnSource ⟨.Rust, fun _ => some mainTree⟩ mainSource ⟨"/app/main.rs"⟩ [p] []).walked.isSome =
        true ∧
      (runOnSource ⟨.Rust, fun _ => some mainTree⟩ "" ⟨"/app/main.rs"⟩ [p] []).result =
        .error (.Uncovered ⟨⟨"/app/main.rs"⟩, [(NAME, .StaleSource)]⟩) := by
  have hreading : mainAnalyzer.Reading :=
    { fileToModuleDef := fun texts id h => readingNotes_ok h _
      fileText := by
        intro texts id text h
        unfold mainAnalyzer
        dsimp only
        rw [h]
      context := fun texts id module h => readingNotes_ok h _
      self := fun id => List.mem_cons_self }
  have hleaves : mainHost.LeavesLossy mainAnalyzer := by
    intro workspace texts vfs hload file id hfile other hother hnone
    cases hload
    have hnotes : other = 1 := by
      have hid : id = 0 := by
        change (if file = ⟨"/app/main.rs"⟩ then some (0, FileExcluded.No) else none) = _ at hfile
        split at hfile
        · cases hfile
          rfl
        · cases hfile
      rw [hid] at hother
      rcases List.mem_cons.mp hother with rfl | h
      · cases hnone
      · exact List.mem_singleton.mp h
    rw [hnotes]
    have hbelow : (⟨"/app/notes.txt"⟩ : FilePath).startsWith ⟨"/app"⟩ :=
      List.isPrefixOf_iff_prefix.mp (by decide)
    exact ⟨⟨"/app/notes.txt"⟩, _, List.mem_cons_of_mem _ List.mem_cons_self, hbelow, rfl, by decide⟩
  refine ⟨_, rfl, fun p hname hp => ?_⟩
  have hload : load mainHost ⟨"."⟩ = .ok _ := rfl
  obtain ⟨-, hrun⟩ := workspace_run hreading hleaves rustKey_injective hload (fun _ => [])
  rw [← hname]
  constructor
  · refine ((hrun p hp _ mainSource ⟨"/app/main.rs"⟩ mainTree [] rfl (by decide)).2 _ rfl).2.1.mpr ?_
    exact ⟨0, MainCrate.app, rfl, rfl, rfl⟩
  · refine ((hrun p hp _ "" ⟨"/app/main.rs"⟩ mainTree [] rfl (by decide)).2 _ rfl).1 _ |>.mpr ?_
    exact .stale 0 MainCrate.app rfl rfl (by decide)

end Stiles.RustProvider
