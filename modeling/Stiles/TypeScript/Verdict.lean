import Stiles.Check.Providers
import Stiles.Core.Pipeline
import Stiles.TypeScript.Decorations

/-
  The verdict of the TypeScript provider on a file, and what a run makes of it (`decorate` of
  `provider.rs` of stiles-typescript, behind `for_file` of `commands/check/providers.rs`).

  `decorate` asks the program for the file, by its absolute path, and compares the texts. A run
  hands a file only the project that is loaded for its root, so that the root is above the file.

  * `decorate_verdict`: the verdict of the project of a file.
  * `typescript_run`: which TypeScript files of a run are walked, why the others are not, and what
    the lints read there.
-/

namespace Stiles

open TypeScriptProvider (TypeScriptDecoration Value typeScriptDecorations Tsrs)

/-! ## The verdict on a file -/

namespace TypeScriptProject

/-- A file of a program, with the text that tsrs read. -/
structure SourceFile where
  text : String
  tsrs : Tsrs

/-- What tsrs answers about the name of a file. -/
structure Compiler (Program : Type) where
  getSourceFile : Program → String → Option SourceFile
  /-- The pattern of `include` that matches, or nothing. -/
  getMatchedIncludeSpec : Program → String → String

namespace TypeScriptDecorationProvider

variable {Program : Type} (self : TypeScriptDecorationProvider Program) (host : Host Program)
  (compiler : Compiler Program) (KEY : TypeScriptDecoration → DecorationKey) (fields : FieldNames)

/-- The gap for a file that the program does not hold. -/
def gapForUnknownFile (file : AbsolutePath) : CoverageGap :=
  let root : FilePath := ⟨self.root.display⟩
  if !self.root.components.isPrefixOf file.components then .OutsideRoot root
  else
    match (compiler.getMatchedIncludeSpec self.program file.display).isEmpty with
    | true => .Unreachable root
    | false => .ExcludedByToolchain root

def decorate (tree : DecoratedTree (typeScriptDecorations KEY Value)) :
    Except DecorateTreeError (Coverage (typeScriptDecorations KEY Value)) :=
  match absolute host tree.file.components with
  | .error source => .error (.UnresolvablePath tree.file source)
  | .ok file =>
    match compiler.getSourceFile self.program file.display with
    | none => .ok (.NotCovered (self.gapForUnknownFile compiler file))
    | some sourceFile =>
      if sourceFile.text ≠ tree.source then .ok (.NotCovered .StaleSource)
      else .ok (.Covered (TypeScriptProvider.decorate fields sourceFile.tsrs.answers tree.tree))

end TypeScriptDecorationProvider

end TypeScriptProject

namespace Loading

open TypeScriptProject

variable {Program Workspace : Type} (host : Host Program) (compiler : Compiler Program)
  (KEY : TypeScriptDecoration → DecorationKey) (fields : FieldNames)

/-- `decorate` of a provider that stands behind a TypeScript file. The Rust provider records the
    decorations of its own crate. -/
def Provider.decorate (provider : Provider Program Workspace)
    (tree : DecoratedTree (typeScriptDecorations KEY Value)) :
    Option (Except DecorateTreeError (Coverage (typeScriptDecorations KEY Value))) :=
  match provider with
  | .Rust _ => none
  | .TypeScript provider => some (provider.decorate host compiler KEY fields tree)
  | .NoTypeScriptProject => some (.ok (.NotCovered .NoProject))

/-! ## The project of a file -/

variable {host compiler}

/-- The provider is that of the nearest root, with the program that tsrs read there. -/
structure InProject (host : Host Program) (file : FilePath)
    (provider : TypeScriptDecorationProvider Program) (full : AbsolutePath) : Prop where
  resolves : absolute host file.components = .ok full
  nearest : discoverRoot host full = some provider.root
  program : host.newProgram provider.root = .ok provider.program

theorem InProject.unique {file : FilePath} {provider other : TypeScriptDecorationProvider Program}
    {full full' : AbsolutePath} (h : InProject host file provider full)
    (h' : InProject host file other full') : provider = other ∧ full = full' := by
  obtain rfl := Except.ok.inj (h.resolves.symm.trans h'.resolves)
  have hroot := Option.some.inj (h.nearest.symm.trans h'.nearest)
  have hprogram := h.program
  rw [hroot, h'.program, Except.ok.injEq] at hprogram
  obtain ⟨program, root⟩ := provider
  obtain ⟨program', root'⟩ := other
  obtain rfl : root = root' := hroot
  obtain rfl : program' = program := hprogram
  exact ⟨rfl, rfl⟩

theorem InProject.projectRoot {file : FilePath} {provider : TypeScriptDecorationProvider Program}
    {full : AbsolutePath} (h : InProject host file provider full) :
    projectRoot host file.components = some provider.root := by
  unfold TypeScriptProject.projectRoot
  rw [h.resolves]
  exact h.nearest

/-- The root of a project is above its files. -/
theorem InProject.below {file : FilePath} {provider : TypeScriptDecorationProvider Program}
    {full : AbsolutePath} (h : InProject host file provider full) :
    provider.root.components.isPrefixOf full.components = true := by
  obtain ⟨rest, hrest⟩ := (holds_of_discoverRoot h.nearest).1
  refine List.isPrefixOf_iff_prefix.mpr ⟨rest.map AbsolutePath.componentOf, ?_⟩
  unfold AbsolutePath.components
  rw [← hrest, List.map_append, List.cons_append]

/-- Each project that is loaded has the program that tsrs read at its root. -/
def FromRoots (host : Host Program) (projects : Projects Program) : Prop :=
  ∀ entry ∈ projects.entries, host.newProgram entry.1 = .ok entry.2.program

theorem FromRoots.loadFile {state next : Bool × Projects Program} (h : FromRoots host state.2)
    {file : FilePath} (hnext : Providers.loadFile host state file = .ok next) :
    FromRoots host next.2 := by
  rcases loadFile_cases hnext with ⟨-, rfl⟩ | ⟨root, program, -, -, -, hprogram, rfl⟩ | ⟨rfl, -⟩
  · exact h
  · intro entry hentry
    rcases List.mem_append.mp hentry with hbefore | hlast
    · exact h entry hbefore
    · obtain rfl := List.mem_singleton.mp hlast
      exact hprogram
  · exact h

variable {toolchains : Toolchains Program Workspace} {path : FilePath} {files : List FilePath}
  {providers : Providers Program Workspace}

theorem fromRoots_of_load (hload : Providers.load toolchains path files = .ok providers) :
    FromRoots toolchains.toHost providers.typescript := by
  unfold Providers.load at hload
  obtain ⟨⟨hasRust, typescript⟩, hfold, hrest⟩ := bind_ok_iff.mp hload
  have hloaded : FromRoots toolchains.toHost typescript :=
    foldlM_loadFile (fun _ state => FromRoots toolchains.toHost state.2)
      (fun done state file next h hnext => h.loadFile hnext) []
      (fun entry h => absurd h List.not_mem_nil) hfold
  cases hasRust with
  | false =>
    obtain rfl := Except.ok.inj hrest
    exact hloaded
  | true =>
    obtain ⟨rust, _, hproviders⟩ := bind_ok_iff.mp hrest
    obtain rfl := Except.ok.inj hproviders
    exact hloaded

theorem mem_of_forFile {file : FilePath} {root : AbsolutePath}
    {provider : TypeScriptDecorationProvider Program}
    (hroot : projectRoot host file.components = some root)
    (h : providers.forFile host file .TypeScript = [.TypeScript provider]) :
    (root, provider) ∈ providers.typescript.entries := by
  unfold Providers.forFile Projects.get at h
  dsimp only at h
  rw [hroot] at h
  dsimp only at h
  cases hfind : providers.typescript.entries.find? (fun entry => entry.1 = root) with
  | none =>
    rw [hfind] at h
    cases h
  | some entry =>
    rw [hfind] at h
    obtain rfl : entry.2 = provider := by
      cases h
      rfl
    obtain rfl : entry.1 = root := of_decide_eq_true (List.find?_some
      (p := fun entry : AbsolutePath × TypeScriptDecorationProvider Program => entry.1 = root) hfind)
    exact List.mem_of_find?_eq_some hfind

/-- A TypeScript file of a run has one provider: that of its project, or the one that stands in
    where there is none. -/
theorem forFile_cases (hload : Providers.load toolchains path files = .ok providers)
    {file : FilePath} (hfile : file ∈ files) (hlanguage : languageOf file = some .TypeScript) :
    (projectRoot toolchains.toHost file.components = none ∧
      providers.forFile toolchains.toHost file .TypeScript = [.NoTypeScriptProject]) ∨
    ∃ provider full, InProject toolchains.toHost file provider full ∧
      providers.forFile toolchains.toHost file .TypeScript = [.TypeScript provider] := by
  obtain ⟨hasRust, hloaded, -⟩ := load_spec hload
  cases hroot : projectRoot toolchains.toHost file.components with
  | none => exact Or.inl ⟨rfl, forFile_noProject hroot⟩
  | some root =>
    obtain ⟨full, hresolves, hnearest⟩ := discoverRoot_of_projectRoot hroot
    obtain ⟨-, provider, rfl, hforFile⟩ := forFile_typescript hloaded hfile hlanguage hroot
    have hentry := mem_of_forFile hroot hforFile
    exact Or.inr ⟨provider, full, ⟨hresolves, hnearest, fromRoots_of_load hload _ hentry⟩, hforFile⟩

/-! ## The verdicts -/

/-- The program of the project holds the file, with the text that was parsed. -/
inductive Covers (host : Host Program) (compiler : Compiler Program) (file : FilePath)
    (source : String) (held : SourceFile) : Prop where
  | intro (provider : TypeScriptDecorationProvider Program) (full : AbsolutePath)
    (h : InProject host file provider full)
    (hheld : compiler.getSourceFile provider.program full.display = some held)
    (htext : held.text = source)

/-- Why a file is not covered. Its project has no root beside it. -/
inductive Declines (host : Host Program) (compiler : Compiler Program) (file : FilePath)
    (source : String) : CoverageGap → Prop where
  | noProject (h : projectRoot host file.components = none) :
    Declines host compiler file source .NoProject
  | unreachable (provider : TypeScriptDecorationProvider Program) (full : AbsolutePath)
    (h : InProject host file provider full)
    (hunknown : compiler.getSourceFile provider.program full.display = none)
    (hinclude : compiler.getMatchedIncludeSpec provider.program full.display = "") :
    Declines host compiler file source (.Unreachable ⟨provider.root.display⟩)
  | excluded (provider : TypeScriptDecorationProvider Program) (full : AbsolutePath)
    (h : InProject host file provider full)
    (hunknown : compiler.getSourceFile provider.program full.display = none)
    (hinclude : compiler.getMatchedIncludeSpec provider.program full.display ≠ "") :
    Declines host compiler file source (.ExcludedByToolchain ⟨provider.root.display⟩)
  | stale (provider : TypeScriptDecorationProvider Program) (full : AbsolutePath)
    (h : InProject host file provider full) (held : SourceFile)
    (hheld : compiler.getSourceFile provider.program full.display = some held)
    (htext : held.text ≠ source) : Declines host compiler file source .StaleSource

variable {file : FilePath} {source : String} {held : SourceFile} {gap other : CoverageGap}

theorem Covers.unique {held' : SourceFile} (h : Covers host compiler file source held)
    (h' : Covers host compiler file source held') : held = held' := by
  obtain ⟨provider, full, hproject, hheld, -⟩ := h
  obtain ⟨provider', full', hproject', hheld', -⟩ := h'
  obtain ⟨rfl, rfl⟩ := hproject.unique hproject'
  exact Option.some.inj (hheld.symm.trans hheld')

/-- A file is not both covered and declined. -/
theorem Covers.not_declines (h : Covers host compiler file source held) (gap : CoverageGap) :
    ¬Declines host compiler file source gap := by
  obtain ⟨provider, full, hproject, hheld, htext⟩ := h
  intro hgap
  cases hgap with
  | noProject hroot => cases hroot.symm.trans hproject.projectRoot
  | unreachable provider' full' hproject' hunknown =>
    obtain ⟨rfl, rfl⟩ := hproject.unique hproject'
    cases hunknown.symm.trans hheld
  | excluded provider' full' hproject' hunknown =>
    obtain ⟨rfl, rfl⟩ := hproject.unique hproject'
    cases hunknown.symm.trans hheld
  | stale provider' full' hproject' held' hheld' htext' =>
    obtain ⟨rfl, rfl⟩ := hproject.unique hproject'
    obtain rfl := Option.some.inj (hheld.symm.trans hheld')
    exact htext' htext

/-- A file is declined for one reason. -/
theorem Declines.unique (h : Declines host compiler file source gap)
    (h' : Declines host compiler file source other) : gap = other := by
  cases h with
  | noProject hroot =>
    cases h' with
    | noProject => rfl
    | unreachable _ _ hproject => cases hroot.symm.trans hproject.projectRoot
    | excluded _ _ hproject => cases hroot.symm.trans hproject.projectRoot
    | stale _ _ hproject => cases hroot.symm.trans hproject.projectRoot
  | unreachable provider full hproject hunknown hinclude =>
    cases h' with
    | noProject hroot => cases hroot.symm.trans hproject.projectRoot
    | unreachable _ _ hproject' =>
      obtain ⟨rfl, rfl⟩ := hproject.unique hproject'
      rfl
    | excluded _ _ hproject' _ hinclude' =>
      obtain ⟨rfl, rfl⟩ := hproject.unique hproject'
      exact absurd hinclude hinclude'
    | stale _ _ hproject' _ hheld =>
      obtain ⟨rfl, rfl⟩ := hproject.unique hproject'
      cases hunknown.symm.trans hheld
  | excluded provider full hproject hunknown hinclude =>
    cases h' with
    | noProject hroot => cases hroot.symm.trans hproject.projectRoot
    | unreachable _ _ hproject' _ hinclude' =>
      obtain ⟨rfl, rfl⟩ := hproject.unique hproject'
      exact absurd hinclude' hinclude
    | excluded _ _ hproject' =>
      obtain ⟨rfl, rfl⟩ := hproject.unique hproject'
      rfl
    | stale _ _ hproject' _ hheld =>
      obtain ⟨rfl, rfl⟩ := hproject.unique hproject'
      cases hunknown.symm.trans hheld
  | stale provider full hproject held hheld htext =>
    cases h' with
    | noProject hroot => cases hroot.symm.trans hproject.projectRoot
    | unreachable _ _ hproject' hunknown =>
      obtain ⟨rfl, rfl⟩ := hproject.unique hproject'
      cases hunknown.symm.trans hheld
    | excluded _ _ hproject' hunknown =>
      obtain ⟨rfl, rfl⟩ := hproject.unique hproject'
      cases hunknown.symm.trans hheld
    | stale => rfl

/-- A verdict that the project of the file supports. -/
inductive Supports (host : Host Program) (compiler : Compiler Program)
    (KEY : TypeScriptDecoration → DecorationKey) (fields : FieldNames) (file : FilePath)
    (source : String) (tree : SyntaxTree) : Coverage (typeScriptDecorations KEY Value) → Prop where
  | covered (held : SourceFile) (h : Covers host compiler file source held) :
    Supports host compiler KEY fields file source tree
      (.Covered (TypeScriptProvider.decorate fields held.tsrs.answers tree))
  | declined (gap : CoverageGap) (h : Declines host compiler file source gap) :
    Supports host compiler KEY fields file source tree (.NotCovered gap)

variable {KEY fields}

/-- The project of a file answers, and its program supports the verdict. -/
theorem decorate_verdict (compiler : Compiler Program)
    {provider : TypeScriptDecorationProvider Program} {full : AbsolutePath}
    (tree : DecoratedTree (typeScriptDecorations KEY Value))
    (h : InProject host tree.file provider full) :
    ∃ coverage, provider.decorate host compiler KEY fields tree = .ok coverage ∧
      Supports host compiler KEY fields tree.file tree.source tree.tree coverage := by
  unfold TypeScriptDecorationProvider.decorate
  rw [h.resolves]
  dsimp only
  cases hheld : compiler.getSourceFile provider.program full.display with
  | none =>
    refine ⟨_, rfl, .declined _ ?_⟩
    unfold TypeScriptDecorationProvider.gapForUnknownFile
    dsimp only
    rw [h.below, if_neg (by decide)]
    cases hinclude : (compiler.getMatchedIncludeSpec provider.program full.display).isEmpty with
    | true => exact .unreachable provider full h hheld (String.isEmpty_iff.mp hinclude)
    | false =>
      refine .excluded provider full h hheld fun hempty => ?_
      rw [String.isEmpty_iff.mpr hempty] at hinclude
      cases hinclude
  | some held =>
    dsimp only
    by_cases htext : held.text = tree.source
    · rw [if_neg (not_not.mpr htext)]
      exact ⟨_, rfl, .covered held ⟨provider, full, h, hheld, htext⟩⟩
    · rw [if_pos htext]
      exact ⟨_, rfl, .declined _ (.stale provider full h held hheld htext)⟩

/-! ## A run over one file -/

/-- In a run whose providers loaded, a TypeScript file has one provider, which answers. The lints
    walk the file exactly if the program of its project holds it with the parsed text, and they read
    what is recorded for that file of the program. Otherwise no lint is called, and the run ends
    with the one gap that holds of the file, which never names a root beside it. -/
theorem typescript_run (hload : Providers.load toolchains path files = .ok providers)
    (hfile : file ∈ files) (hlanguage : languageOf file = some .TypeScript)
    (p : DecorationProvider (typeScriptDecorations KEY Value))
    (hp : ∀ q ∈ providers.forFile toolchains.toHost file .TypeScript, ∀ parsed,
      q.decorate toolchains.toHost compiler KEY fields parsed = some (p.decorate parsed))
    (pipeline : Pipeline) (source : String) {tree : SyntaxTree}
    (hparse : pipeline.parse source = some tree)
    (lints : List (Lint (typeScriptDecorations KEY Value))) :
    (providers.forFile toolchains.toHost file .TypeScript).length = 1 ∧
    let ran := runOnSource pipeline source file [p] lints
    (∀ name e, ran.result ≠ .error (.ProviderFailed name e)) ∧
    (∀ gap, ran.result = .error (.Uncovered ⟨file, [(p.name, gap)]⟩) ↔
      Declines toolchains.toHost compiler file source gap) ∧
    (ran.walked.isSome = true ↔ ∃ held, Covers toolchains.toHost compiler file source held) ∧
    ((¬∃ held, Covers toolchains.toHost compiler file source held) → ran.walked = none ∧
      ∃ gap, Declines toolchains.toHost compiler file source gap ∧
        ran.result = .error (.Uncovered ⟨file, [(p.name, gap)]⟩)) ∧
    ∀ held, Covers toolchains.toHost compiler file source held →
      ∃ walked, ran.walked = some walked ∧ ∀ c ∈ walked.2.calls, c.arg.source = source ∧
        ∀ T : TypeScriptDecoration, c.arg.decoration T =
          (TypeScriptProvider.decorate fields held.tsrs.answers tree :
            DecorationMap (typeScriptDecorations KEY Value)).get T c.arg.id := by
  let parsed : DecoratedTree (typeScriptDecorations KEY Value) :=
    DecoratedTree.new tree pipeline.language source file
  have hanswers : ∃ coverage, p.decorate parsed = .ok coverage ∧
      Supports toolchains.toHost compiler KEY fields file source tree coverage := by
    rcases forFile_cases hload hfile hlanguage with ⟨hroot, hforFile⟩ |
      ⟨provider, full, hproject, hforFile⟩
    · have hdecorate := hp _ (hforFile ▸ List.mem_cons_self) parsed
      exact ⟨_, (Option.some.inj hdecorate).symm, .declined _ (.noProject hroot)⟩
    · have hdecorate := hp _ (hforFile ▸ List.mem_cons_self) parsed
      obtain ⟨coverage, hcoverage, hsupports⟩ := decorate_verdict compiler parsed hproject
      exact ⟨coverage, (Option.some.inj hdecorate).symm.trans hcoverage, hsupports⟩
  refine ⟨?_, ?_⟩
  · rcases forFile_cases hload hfile hlanguage with ⟨_, hforFile⟩ | ⟨_, _, _, hforFile⟩
    · rw [hforFile]
      rfl
    · rw [hforFile]
      rfl
  · intro ran
    obtain ⟨coverage, hcoverage, hsupports⟩ := hanswers
    cases hsupports with
    | declined gap hgap =>
      obtain ⟨hfails, hgaps, hwalked⟩ := runOnSource_one_gap hparse hcoverage
      refine ⟨hfails, fun other => (hgaps other).trans ⟨fun h => h ▸ hgap, hgap.unique⟩, ?_,
        fun _ => ⟨hwalked, gap, hgap, (hgaps gap).mpr rfl⟩,
        fun held hheld => absurd hgap (hheld.not_declines gap)⟩
      rw [hwalked]
      refine ⟨fun h => absurd h Bool.false_ne_true, fun h => ?_⟩
      obtain ⟨held, hheld⟩ := h
      exact absurd hgap (hheld.not_declines gap)
    | covered held hheld =>
      obtain ⟨hfails, hgaps, walked, hwalked, hreads⟩ :=
        runOnSource_one_reads hparse TypeScriptProvider.wellSealed_decorate hcoverage
      refine ⟨hfails, fun gap => iff_of_false (hgaps gap) (hheld.not_declines gap), ?_,
        fun hnot => absurd ⟨held, hheld⟩ hnot, fun other hother => ?_⟩
      · rw [hwalked]
        exact iff_of_true rfl ⟨held, hheld⟩
      · obtain rfl := hheld.unique hother
        exact ⟨walked, hwalked, hreads⟩

/-! ## A file of a project -/

open TypeScriptProvider (mainFields mainTree mainTsrs typeScriptKey)

def mainSource : String := "import \"./kinds\"; function pick(kind: \"a\" | \"b\"): void \x7b\x7d"

/-- The program of `/home/proj` holds one file. -/
def mainCompiler : Compiler Unit where
  getSourceFile _ name :=
    if name = "/home/proj/src/main.ts" then some ⟨mainSource, mainTsrs⟩ else none
  getMatchedIncludeSpec _ _ := ""

def mainProvider : DecorationProvider (typeScriptDecorations typeScriptKey Value) where
  name := ⟨"typescript"⟩
  decorate := TypeScriptDecorationProvider.decorate ⟨(), projectRootPath⟩ projectTree.toHost
    mainCompiler typeScriptKey mainFields
  walksTree := true

/-- The file is walked while its text is the one that tsrs read. -/
theorem typescript_run_main :
    let ran := fun source : String =>
      runOnSource ⟨.TypeScript, fun _ => some mainTree⟩ source ⟨"src/main.ts"⟩ [mainProvider] []
    (ran mainSource).walked.isSome = true ∧
      (ran "").result = .error (.Uncovered ⟨⟨"src/main.ts"⟩, [(⟨"typescript"⟩, .StaleSource)]⟩) := by
  intro ran
  have hload : Providers.load projectTree ⟨"."⟩ [⟨"src/main.ts"⟩] = .ok projectProviders := by rfl
  have hforFile : projectProviders.forFile projectTree.toHost ⟨"src/main.ts"⟩ .TypeScript =
      [.TypeScript ⟨(), projectRootPath⟩] := by rfl
  have hproject : InProject projectTree.toHost ⟨"src/main.ts"⟩ ⟨(), projectRootPath⟩
      ⟨["home", "proj", "src", "main.ts"].map fun name => some name.toList⟩ := ⟨rfl, rfl, rfl⟩
  have hanswers : ∀ q ∈ projectProviders.forFile projectTree.toHost ⟨"src/main.ts"⟩ .TypeScript,
      ∀ parsed, q.decorate projectTree.toHost mainCompiler typeScriptKey mainFields parsed =
        some (mainProvider.decorate parsed) := by
    intro q hq parsed
    rw [hforFile, List.mem_singleton] at hq
    rw [hq]
    rfl
  have hrun := fun source => typescript_run hload (List.mem_singleton_self _) (by decide)
    mainProvider hanswers ⟨.TypeScript, fun _ => some mainTree⟩ source rfl []
  have hheld : mainCompiler.getSourceFile () "/home/proj/src/main.ts" =
      some ⟨mainSource, mainTsrs⟩ := rfl
  refine ⟨?_, ?_⟩
  · obtain ⟨-, -, -, hwalked, -⟩ := hrun mainSource
    exact hwalked.mpr ⟨⟨mainSource, mainTsrs⟩, _, _, hproject, hheld, rfl⟩
  · obtain ⟨-, -, hgaps, -⟩ := hrun ""
    exact (hgaps _).mpr (.stale _ _ hproject _ hheld (by decide))

end Loading

end Stiles
