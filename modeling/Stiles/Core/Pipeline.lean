import Stiles.Types.Coverage
import Stiles.Core.WalkOrder

/-
  The pipeline of one file (`pipeline.rs`): parse, ask the providers, merge, walk.

  `askProviders` asks them in order and stops at the first that fails. `runOnSource` merges the
  maps of the covering providers and walks the merged tree. `Ran` carries two ghosts beside the
  result: the providers that were asked, and the walk with its tree, if there was one.

  `runOnSource_outcomes` gives the three outcomes and what the lints read off the merged tree.
-/

namespace Stiles

variable {D : DecorationTypes}

inductive RunPipelineError where
  | UnreadableSource (path : FilePath) (source : IoError)
  | NoSyntaxTree
  | ProviderFailed (provider : ProviderName) (source : DecorateTreeError)
  | Uncovered (source : UncoveredFile)
  | LintsFailed (source : WalkLintsError)
deriving DecidableEq

/-- The error as the chain of messages that `anyhow` keeps. -/
def RunPipelineError.anyhow : RunPipelineError → Anyhow
  | .UnreadableSource path source => ⟨"failed to read " ++ path.text, [source.message]⟩
  | .NoSyntaxTree => ⟨"tree-sitter produced no syntax tree for the source", []⟩
  | .ProviderFailed provider source =>
    ⟨"failed to run the `" ++ provider.name ++ "` decoration provider", source.chain⟩
  | .Uncovered source => ⟨source.display, []⟩
  | .LintsFailed source => ⟨"failed to run the lint passes", [source.display]⟩

/-- A language and a parser of its grammar. The parser is tree-sitter's. -/
structure Pipeline where
  language : Language
  parse : String → Option SyntaxTree

/-- What a run of the pipeline returns, whom it asked, and which walk it made of which tree. -/
structure Ran (D : DecorationTypes) where
  result : Except RunPipelineError (List Diagnostic)
  asked : List (DecorationProvider D)
  walked : Option (DecoratedTree D × Walked D)

/-- What the loop over the providers keeps. -/
structure Asking (D : DecorationTypes) where
  tree : DecoratedTree D
  covered : List (DecorationMap D)
  gaps : List (ProviderName × CoverageGap)
  asked : List (DecorationProvider D)

/-- The tree after a provider was asked. -/
def DecorationProvider.leaves (provider : DecorationProvider D) (tree : DecoratedTree D) :
    DecoratedTree D :=
  if provider.walksTree then tree.rootNode.2 else tree

/-- The loop over the providers. `file` is the file that each of them is asked about: the tree as
    it was parsed, whose seal no reader can see. -/
def askProviders (file : DecoratedTree D) :
    List (DecorationProvider D) → Asking D → Except RunPipelineError Unit × Asking D
  | [], st => (.ok (), st)
  | provider :: rest, st =>
    let st := { st with tree := provider.leaves st.tree, asked := st.asked ++ [provider] }
    match provider.decorate file with
    | .error source => (.error (.ProviderFailed provider.name source), st)
    | .ok (.Covered decorations) =>
      askProviders file rest { st with covered := st.covered ++ [decorations] }
    | .ok (.NotCovered gap) =>
      askProviders file rest { st with gaps := st.gaps ++ [(provider.name, gap)] }

def runOnSource (pipeline : Pipeline) (source : String) (path : FilePath)
    (providers : List (DecorationProvider D)) (lints : List (Lint D)) : Ran D :=
  match pipeline.parse source with
  | none => { result := .error .NoSyntaxTree, asked := [], walked := none }
  | some tree =>
    let decorated := DecoratedTree.new tree pipeline.language source path
    match askProviders decorated providers
      { tree := decorated, covered := [], gaps := [], asked := [] } with
    | (.error e, st) => { result := .error e, asked := st.asked, walked := none }
    | (.ok (), st) =>
      if st.covered.isEmpty then
        { result := .error (.Uncovered { file := path, gaps := st.gaps })
          asked := st.asked
          walked := none }
      else
        let merged := st.covered.foldl DecoratedTree.mergeDecorations st.tree
        let walked := walkLints merged lints
        { result := walked.result.mapError .LintsFailed
          asked := st.asked
          walked := some (merged, walked) }

/-! ## Asking the providers -/

/-- The providers up to a failing one all answered. -/
def Answers (file : DecoratedTree D) (providers : List (DecorationProvider D)) : Prop :=
  ∀ p ∈ providers, ∃ coverage, p.decorate file = .ok coverage

/-- The map that a provider recorded, if it covers the file. -/
def coveringMap (file : DecoratedTree D) (p : DecorationProvider D) : Option (DecorationMap D) :=
  (p.decorate file).toOption.bind Coverage.decorations?

/-- The gap that a provider named, if it declines the file. -/
def declining (file : DecoratedTree D) (p : DecorationProvider D) :
    Option (ProviderName × CoverageGap) :=
  ((p.decorate file).toOption.bind Coverage.gap?).map fun gap => (p.name, gap)

/-- Where not every provider answers, one is the first that fails. -/
theorem first_failing {file : DecoratedTree D} {providers : List (DecorationProvider D)}
    (h : ¬ Answers file providers) :
    ∃ before p after e, providers = before ++ p :: after ∧ Answers file before ∧
      p.decorate file = .error e := by
  obtain ⟨before, p, after, hsplit, hbefore, hp⟩ := exists_first_not h
  cases hdec : p.decorate file with
  | ok coverage => exact absurd ⟨coverage, hdec⟩ hp
  | error e => exact ⟨before, p, after, e, hsplit, hbefore, hdec⟩

/-- A provider with a map covers the file with it. -/
theorem coveringMap_eq_some {file : DecoratedTree D} {p : DecorationProvider D}
    {map : DecorationMap D} (h : coveringMap file p = some map) :
    p.decorate file = .ok (.Covered map) := by
  unfold coveringMap at h
  cases hdec : p.decorate file with
  | error e => simp [hdec, Except.toOption] at h
  | ok coverage =>
    cases coverage with
    | Covered decorations => simpa [hdec, Except.toOption, Coverage.decorations?] using h
    | NotCovered gap => simp [hdec, Except.toOption, Coverage.decorations?] at h

/-- Providers that all answer leave their maps and their gaps, each in provider order. -/
theorem askProviders_answers {file : DecoratedTree D} {providers : List (DecorationProvider D)}
    (h : Answers file providers) (rest : List (DecorationProvider D)) (st : Asking D) :
    askProviders file (providers ++ rest) st =
      askProviders file rest
        { tree := providers.foldl (fun tree p => p.leaves tree) st.tree
          covered := st.covered ++ providers.filterMap (coveringMap file)
          gaps := st.gaps ++ providers.filterMap (declining file)
          asked := st.asked ++ providers } := by
  induction providers generalizing st with
  | nil => simp
  | cons p providers ih =>
    have hrest : Answers file providers := fun q hq => h q (List.mem_cons_of_mem _ hq)
    obtain ⟨coverage, hp⟩ := h p List.mem_cons_self
    rw [List.cons_append, askProviders]
    cases coverage with
    | Covered decorations =>
      have hcov : coveringMap file p = some decorations := by
        simp [coveringMap, hp, Except.toOption, Coverage.decorations?]
      have hgap : declining file p = none := by
        simp [declining, hp, Except.toOption, Coverage.gap?]
      simp only [hp]
      rw [ih hrest]
      simp [hcov, hgap]
    | NotCovered gap =>
      have hcov : coveringMap file p = none := by
        simp [coveringMap, hp, Except.toOption, Coverage.decorations?]
      have hgap : declining file p = some (p.name, gap) := by
        simp [declining, hp, Except.toOption, Coverage.gap?]
      simp only [hp]
      rw [ih hrest]
      simp [hcov, hgap]

/-- The first provider that fails ends the loop. -/
theorem askProviders_fails {file : DecoratedTree D} {before : List (DecorationProvider D)}
    (after : List (DecorationProvider D)) {p : DecorationProvider D}
    {source : DecorateTreeError} (h : Answers file before)
    (hp : p.decorate file = .error source) (st : Asking D) :
    (askProviders file (before ++ p :: after) st).1 = .error (.ProviderFailed p.name source) ∧
      (askProviders file (before ++ p :: after) st).2.asked = st.asked ++ (before ++ [p]) := by
  rw [askProviders_answers h, askProviders]
  simp [hp]

/-- Providers that all decline name one gap each, in order. -/
theorem declining_all {file : DecoratedTree D} {providers : List (DecorationProvider D)}
    (h : Answers file providers) (hcov : providers.filterMap (coveringMap file) = []) :
    (providers.filterMap (declining file)).map Prod.fst =
      providers.map DecorationProvider.name := by
  induction providers with
  | nil => rfl
  | cons p providers ih =>
    have hrest : Answers file providers := fun q hq => h q (List.mem_cons_of_mem _ hq)
    obtain ⟨coverage, hp⟩ := h p List.mem_cons_self
    cases coverage with
    | Covered decorations =>
      simp [coveringMap, hp, Except.toOption, Coverage.decorations?] at hcov
    | NotCovered gap =>
      have hgap : declining file p = some (p.name, gap) := by
        simp [declining, hp, Except.toOption, Coverage.gap?]
      have hnone : coveringMap file p = none := by
        simp [coveringMap, hp, Except.toOption, Coverage.decorations?]
      rw [List.filterMap_cons_none hnone] at hcov
      rw [List.filterMap_cons_some hgap, List.map_cons, List.map_cons, ih hrest hcov]

/-- Asking the providers changes nothing of the tree but its seal. -/
theorem leaves_eq (p : DecorationProvider D) (tree : DecoratedTree D) :
    ∃ sealed, p.leaves tree =
      { tree with decorations := { tree.decorations with sealed := sealed } } := by
  unfold DecorationProvider.leaves
  split
  · exact ⟨_, rfl⟩
  · exact ⟨tree.decorations.sealed, rfl⟩

theorem foldl_leaves_eq (providers : List (DecorationProvider D)) (tree : DecoratedTree D) :
    ∃ sealed, providers.foldl (fun tree p => p.leaves tree) tree =
      { tree with decorations := { tree.decorations with sealed := sealed } } := by
  induction providers generalizing tree with
  | nil => exact ⟨tree.decorations.sealed, rfl⟩
  | cons p providers ih =>
    obtain ⟨first, hfirst⟩ := leaves_eq p tree
    obtain ⟨last, hlast⟩ := ih (p.leaves tree)
    exact ⟨last, by rw [List.foldl_cons, hlast, hfirst]⟩

/-! ## Merging the maps -/

theorem foldl_mergeDecorations (maps : List (DecorationMap D)) (tree : DecoratedTree D) :
    maps.foldl DecoratedTree.mergeDecorations tree =
      { tree with decorations := maps.foldl DecorationMap.merge tree.decorations } := by
  induction maps generalizing tree with
  | nil => rfl
  | cons m maps ih => rw [List.foldl_cons, ih]; rfl

theorem foldl_merge_entries (maps : List (DecorationMap D)) (map : DecorationMap D) :
    (maps.foldl DecorationMap.merge map).entries =
      map.entries ++ maps.flatMap DecorationMap.entries := by
  induction maps generalizing map with
  | nil => simp
  | cons m maps ih =>
    rw [List.foldl_cons, ih, List.flatMap_cons, ← List.append_assoc]
    rfl

/-- One merge drops whatever index a provider made the tree seal. -/
theorem foldl_merge_sealed {maps : List (DecorationMap D)} (h : maps ≠ [])
    (map : DecorationMap D) : (maps.foldl DecorationMap.merge map).sealed = none := by
  induction maps generalizing map with
  | nil => exact absurd rfl h
  | cons m maps ih =>
    rw [List.foldl_cons]
    cases maps with
    | nil => rfl
    | cons n maps => exact ih (List.cons_ne_nil _ _) _

/-- The tree that the lints see: the file as parsed, with the maps merged in order. -/
def mergedTree (file : DecoratedTree D) (maps : List (DecorationMap D)) : DecoratedTree D :=
  { file with
    decorations := { entries := maps.flatMap DecorationMap.entries, sealed := none } }

/-- Whatever the providers sealed, merging the covering maps gives the merged tree. -/
theorem foldl_mergeDecorations_eq {maps : List (DecorationMap D)} (h : maps ≠ [])
    (tree : SyntaxTree) (language : Language) (source : String) (path : FilePath)
    (sealed : Option (List Nat)) :
    maps.foldl DecoratedTree.mergeDecorations
        { DecoratedTree.new (D := D) tree language source path with
          decorations := { entries := [], sealed := sealed } } =
      mergedTree (DecoratedTree.new tree language source path) maps := by
  have hsealed := foldl_merge_sealed h { entries := ([] : List (Entry D)), sealed := sealed }
  have hentries := foldl_merge_entries maps { entries := ([] : List (Entry D)), sealed := sealed }
  rw [foldl_mergeDecorations, mergedTree]
  generalize maps.foldl DecorationMap.merge { entries := [], sealed := sealed } = merged at *
  obtain ⟨entries, index⟩ := merged
  simp only at hsealed hentries
  rw [hsealed, hentries, List.nil_append]

theorem Entries.getAll_flatMap (maps : List (DecorationMap D)) (T : D.Ty) (nodeId : Nat) :
    Entries.getAll (maps.flatMap DecorationMap.entries) T nodeId =
      maps.flatMap fun m => Entries.getAll m.entries T nodeId := by
  induction maps with
  | nil => rfl
  | cons m maps ih => rw [List.flatMap_cons, List.flatMap_cons, Entries.getAll_append, ih]

theorem Entries.held_flatMap (maps : List (DecorationMap D)) (nodeId : Nat)
    (key : DecorationKey) :
    Entries.held (maps.flatMap DecorationMap.entries) nodeId key =
      maps.flatMap fun m => Entries.held m.entries nodeId key := by
  induction maps with
  | nil => rfl
  | cons m maps ih => rw [List.flatMap_cons, List.flatMap_cons, Entries.held_append, ih]

/-! ## Reading the merged tree -/

/-- The handle that every node of the merged tree reads decorations through. -/
theorem mergedTree_lookup (file : DecoratedTree D) (maps : List (DecorationMap D)) :
    (mergedTree file maps).rootNode.1.decorations =
      { order := sealOrder (maps.flatMap DecorationMap.entries)
        entries := maps.flatMap DecorationMap.entries } := rfl

theorem mergedTree_getAll (file : DecoratedTree D) (maps : List (DecorationMap D)) (T : D.Ty)
    (nodeId : Nat) :
    (mergedTree file maps).rootNode.1.decorations.getAll T nodeId =
      maps.flatMap fun m => Entries.getAll m.entries T nodeId := by
  rw [mergedTree_lookup, DecorationLookup.getAll_sealOrder, Entries.getAll_flatMap]

/-- One decoration is read from the first map with an entry under the key. -/
theorem mergedTree_first (file : DecoratedTree D) (maps : List (DecorationMap D)) (T : D.Ty)
    (nodeId : Nat) :
    (mergedTree file maps).rootNode.1.decorations.first T nodeId =
      (maps.findSome? fun m => (Entries.held m.entries nodeId (D.KEY T)).head?).bind
        (Entry.read T) := by
  rw [mergedTree_lookup, DecorationLookup.first_sealOrder, Entries.first, Entries.held_flatMap,
    List.head?_flatMap]

/-- Where every entry under the key holds a `T`, it is read from the first map that decorated the
    node with a `T`. -/
theorem mergedTree_first_of_key (file : DecoratedTree D) (maps : List (DecorationMap D))
    (T : D.Ty) (nodeId : Nat)
    (h : ∀ m ∈ maps, ∀ entry ∈ Entries.held m.entries nodeId (D.KEY T), entry.value.1 = T) :
    (mergedTree file maps).rootNode.1.decorations.first T nodeId =
      maps.findSome? fun m => (Entries.getAll m.entries T nodeId).head? := by
  have hall : ∀ entry ∈ Entries.held (maps.flatMap DecorationMap.entries) nodeId (D.KEY T),
      entry.value.1 = T := by
    intro entry hentry
    rw [Entries.held_flatMap, List.mem_flatMap] at hentry
    obtain ⟨m, hm, hentry⟩ := hentry
    exact h m hm entry hentry
  rw [mergedTree_lookup, DecorationLookup.first_sealOrder, Entries.first_eq_head hall,
    Entries.getAll_flatMap, List.head?_flatMap]

/-! ## The outcomes of a run -/

theorem runOnSource_eq {pipeline : Pipeline} {source : String} {tree : SyntaxTree}
    (hparse : pipeline.parse source = some tree) (path : FilePath)
    {providers : List (DecorationProvider D)} (lints : List (Lint D))
    (h : Answers (DecoratedTree.new tree pipeline.language source path) providers) :
    let file := DecoratedTree.new tree pipeline.language source path
    let covering := providers.filterMap (coveringMap file)
    runOnSource pipeline source path providers lints =
      if covering.isEmpty then
        { result := .error
            (.Uncovered { file := path, gaps := providers.filterMap (declining file) })
          asked := providers
          walked := none }
      else
        { result := (walkLints (mergedTree file covering) lints).result.mapError .LintsFailed
          asked := providers
          walked := some (mergedTree file covering, walkLints (mergedTree file covering) lints) }
    := by
  intro file covering
  obtain ⟨sealed, hleaves⟩ := foldl_leaves_eq providers file
  have hasked := askProviders_answers h []
    { tree := file, covered := [], gaps := [], asked := [] }
  rw [List.append_nil] at hasked
  simp only [runOnSource, hparse]
  rw [hasked, askProviders]
  simp only [List.nil_append, hleaves]
  by_cases hcov : covering.isEmpty = true
  · rw [if_pos hcov, if_pos hcov]
  · have hne : covering ≠ [] := fun h => hcov (by rw [h]; rfl)
    have hmerged := foldl_mergeDecorations_eq hne tree pipeline.language source path sealed
    rw [if_neg hcov, if_neg hcov]
    change _ = mergedTree file covering at hmerged
    simp only [← hmerged]
    rfl

theorem runOnSource_fails {pipeline : Pipeline} {source : String} {tree : SyntaxTree}
    (hparse : pipeline.parse source = some tree) (path : FilePath)
    {providers before after : List (DecorationProvider D)} (lints : List (Lint D))
    {p : DecorationProvider D} {e : DecorateTreeError} (hsplit : providers = before ++ p :: after)
    (hbefore : Answers (DecoratedTree.new tree pipeline.language source path) before)
    (hp : p.decorate (DecoratedTree.new tree pipeline.language source path) = .error e) :
    runOnSource pipeline source path providers lints =
      { result := .error (.ProviderFailed p.name e), asked := before ++ [p], walked := none } := by
  obtain ⟨hresult, hasked⟩ := askProviders_fails after hbefore hp
    { tree := DecoratedTree.new tree pipeline.language source path
      covered := [], gaps := [], asked := [] }
  subst hsplit
  simp only [runOnSource, hparse]
  split
  · rename_i err st heq
    rw [heq] at hresult hasked
    cases hresult
    rw [hasked, List.nil_append]
  · rename_i st heq
    rw [heq] at hresult
    cases hresult

theorem lintsFailed_ne_uncovered (result : Except WalkLintsError (List Diagnostic))
    (uncovered : UncoveredFile) :
    result.mapError RunPipelineError.LintsFailed ≠ .error (.Uncovered uncovered) := by
  cases result <;> simp [Except.mapError]

theorem runOnSource_uncovered_iff {pipeline : Pipeline} {source : String} {tree : SyntaxTree}
    (hparse : pipeline.parse source = some tree) (path : FilePath)
    (providers : List (DecorationProvider D)) (lints : List (Lint D))
    (uncovered : UncoveredFile) :
    let file := DecoratedTree.new tree pipeline.language source path
    (runOnSource pipeline source path providers lints).result = .error (.Uncovered uncovered) ↔
      Answers file providers ∧ providers.filterMap (coveringMap file) = [] ∧
        uncovered = { file := path, gaps := providers.filterMap (declining file) } := by
  intro file
  by_cases hans : Answers file providers
  · rw [runOnSource_eq hparse path lints hans]
    by_cases hcov : (providers.filterMap (coveringMap file)).isEmpty = true
    · rw [if_pos hcov]
      simp only [Except.error.injEq, RunPipelineError.Uncovered.injEq]
      exact ⟨fun h => ⟨hans, List.isEmpty_iff.mp hcov, h.symm⟩, fun h => h.2.2.symm⟩
    · rw [if_neg hcov]
      exact ⟨fun h => absurd h (lintsFailed_ne_uncovered _ _),
        fun h => absurd (List.isEmpty_iff.mpr h.2.1) hcov⟩
  · obtain ⟨before, p, after, e, hsplit, hbefore, hdec⟩ := first_failing hans
    rw [runOnSource_fails hparse path lints hsplit hbefore hdec]
    simp [hans]

/-- A run that returns diagnostics parsed the file, was covered, and walked the merged tree. -/
theorem runOnSource_ok {pipeline : Pipeline} {source : String} {path : FilePath}
    {providers : List (DecorationProvider D)} {lints : List (Lint D)} {ds : List Diagnostic}
    (h : (runOnSource pipeline source path providers lints).result = .ok ds) :
    ∃ tree, pipeline.parse source = some tree ∧
      let file := DecoratedTree.new tree pipeline.language source path
      let merged := mergedTree file (providers.filterMap (coveringMap file))
      (∃ p ∈ providers, ∃ decorations, p.decorate file = .ok (.Covered decorations)) ∧
        (runOnSource pipeline source path providers lints).walked =
          some (merged, walkLints merged lints) ∧
        (walkLints merged lints).result = .ok ds := by
  cases hparse : pipeline.parse source with
  | none => simp [runOnSource, hparse] at h
  | some tree =>
    refine ⟨tree, rfl, ?_⟩
    intro file merged
    by_cases hans : Answers file providers
    · rw [runOnSource_eq hparse path lints hans] at h ⊢
      by_cases hcov : (providers.filterMap (coveringMap file)).isEmpty = true
      · rw [if_pos hcov] at h
        simp at h
      · rw [if_neg hcov] at h ⊢
        obtain ⟨map, hmap⟩ := List.exists_mem_of_ne_nil _ fun he => hcov (List.isEmpty_iff.mpr he)
        obtain ⟨p, hp, hcovering⟩ := List.mem_filterMap.mp hmap
        refine ⟨⟨p, hp, map, coveringMap_eq_some hcovering⟩, rfl, ?_⟩
        change (walkLints merged lints).result.mapError _ = _ at h
        cases hwalk : (walkLints merged lints).result with
        | error e => simp [hwalk, Except.mapError] at h
        | ok ds' => simpa [hwalk, Except.mapError] using h
    · obtain ⟨before, p, after, e, hsplit, hbefore, hdec⟩ := first_failing hans
      rw [runOnSource_fails hparse path lints hsplit hbefore hdec] at h
      simp at h

/-! ## A run with one provider -/

section One

variable {pipeline : Pipeline} {source : String} {path : FilePath} {tree : SyntaxTree}
  {p : DecorationProvider D} {lints : List (Lint D)}

theorem runOnSource_one_fails (hparse : pipeline.parse source = some tree) {e : DecorateTreeError}
    (hp : p.decorate (DecoratedTree.new tree pipeline.language source path) = .error e) :
    runOnSource pipeline source path [p] lints =
      { result := .error (.ProviderFailed p.name e), asked := [p], walked := none } :=
  runOnSource_fails hparse path lints (List.nil_append [p]).symm (fun _ h => absurd h List.not_mem_nil)
    hp

theorem answers_one {file : DecoratedTree D} {coverage : Coverage D}
    (hp : p.decorate file = .ok coverage) : Answers file [p] := by
  intro q hq
  rw [List.mem_singleton.mp hq]
  exact ⟨coverage, hp⟩

theorem runOnSource_one_declines (hparse : pipeline.parse source = some tree) {gap : CoverageGap}
    (hp : p.decorate (DecoratedTree.new tree pipeline.language source path) =
      .ok (.NotCovered gap)) :
    runOnSource pipeline source path [p] lints =
      { result := .error (.Uncovered { file := path, gaps := [(p.name, gap)] })
        asked := [p]
        walked := none } := by
  rw [runOnSource_eq hparse path lints (answers_one hp)]
  simp [coveringMap, declining, hp, Except.toOption, Coverage.decorations?, Coverage.gap?]

theorem runOnSource_one_covers (hparse : pipeline.parse source = some tree)
    {map : DecorationMap D}
    (hp : p.decorate (DecoratedTree.new tree pipeline.language source path) = .ok (.Covered map)) :
    let merged := mergedTree (DecoratedTree.new tree pipeline.language source path) [map]
    runOnSource pipeline source path [p] lints =
      { result := (walkLints merged lints).result.mapError .LintsFailed
        asked := [p]
        walked := some (merged, walkLints merged lints) } := by
  intro merged
  rw [runOnSource_eq hparse path lints (answers_one hp)]
  simp [coveringMap, hp, Except.toOption, Coverage.decorations?, merged]

/-- A lint reads the one map that was merged. -/
theorem decoration_of_call {file : DecoratedTree D} {map : DecorationMap D}
    (hsealed : map.WellSealed) {c : LintCall D}
    (hc : c ∈ (walkLints (mergedTree file [map]) lints).calls) (T : D.Ty) :
    c.arg.decoration T = map.get T c.arg.id := by
  unfold DecoratedNode.decoration
  rw [(call_view hc).1, mergedTree_lookup, DecorationLookup.first_sealOrder, List.flatMap_singleton,
    DecorationMap.get_eq hsealed]

/-- A run whose one provider declines the file. -/
theorem runOnSource_one_gap (hparse : pipeline.parse source = some tree) {gap : CoverageGap}
    (hp : p.decorate (DecoratedTree.new tree pipeline.language source path) =
      .ok (.NotCovered gap)) :
    let ran := runOnSource pipeline source path [p] lints
    (∀ name e, ran.result ≠ .error (.ProviderFailed name e)) ∧
    (∀ other, ran.result = .error (.Uncovered ⟨path, [(p.name, other)]⟩) ↔ gap = other) ∧
      ran.walked = none := by
  intro ran
  have hran : ran = _ := runOnSource_one_declines hparse hp
  rw [hran]
  refine ⟨fun _ _ => nofun, fun other => ?_, rfl⟩
  simp only [Except.error.injEq, RunPipelineError.Uncovered.injEq, UncoveredFile.mk.injEq,
    List.cons.injEq, Prod.mk.injEq, true_and, and_true]

/-- A run whose one provider covers the file: a lint reads the map of the provider. -/
theorem runOnSource_one_reads (hparse : pipeline.parse source = some tree)
    {map : DecorationMap D} (hsealed : map.WellSealed)
    (hp : p.decorate (DecoratedTree.new tree pipeline.language source path) =
      .ok (.Covered map)) :
    let ran := runOnSource pipeline source path [p] lints
    (∀ name e, ran.result ≠ .error (.ProviderFailed name e)) ∧
    (∀ gap, ran.result ≠ .error (.Uncovered ⟨path, [(p.name, gap)]⟩)) ∧
    ∃ walked, ran.walked = some walked ∧ ∀ c ∈ walked.2.calls, c.arg.source = source ∧
      ∀ T : D.Ty, c.arg.decoration T = map.get T c.arg.id := by
  intro ran
  have hran : ran = _ := runOnSource_one_covers hparse hp
  rw [hran]
  refine ⟨fun name e => ?_, fun gap => lintsFailed_ne_uncovered _ _, _, rfl, fun c hc =>
    ⟨(call_view hc).2.2, decoration_of_call hsealed hc⟩⟩
  cases (walkLints (mergedTree (DecoratedTree.new tree pipeline.language source path) [map])
    lints).result <;> simp [Except.mapError]

end One

/-- A file that parses has one of three outcomes. The first provider that fails ends the run, and
    no later one is asked. Where none fails and none covers the file, the result is `Uncovered`
    with the gap of every provider, and no lint is called. Otherwise the lints walk the merged
    tree, whose nodes read the decorations of the covering providers in provider order. -/
theorem runOnSource_outcomes (pipeline : Pipeline) (source : String) (path : FilePath)
    (providers : List (DecorationProvider D)) (lints : List (Lint D)) (tree : SyntaxTree)
    (hparse : pipeline.parse source = some tree) :
    let file := DecoratedTree.new tree pipeline.language source path
    let ran := runOnSource pipeline source path providers lints
    let covering := providers.filterMap (coveringMap file)
    let gaps := providers.filterMap (declining file)
    (∀ before p after e, providers = before ++ p :: after → Answers file before →
      p.decorate file = .error e →
      ran.result = .error (.ProviderFailed p.name e) ∧ ran.asked = before ++ [p] ∧
        ran.walked = none) ∧
    (∀ uncovered, ran.result = .error (.Uncovered uncovered) ↔
      Answers file providers ∧ covering = [] ∧ uncovered = { file := path, gaps := gaps }) ∧
    (Answers file providers → covering = [] →
      gaps.map Prod.fst = providers.map DecorationProvider.name ∧ ran.walked = none) ∧
    (Answers file providers → covering ≠ [] →
      let merged := mergedTree file covering
      let lookup := merged.rootNode.1.decorations
      ran.walked = some (merged, walkLints merged lints) ∧
      ran.result = (walkLints merged lints).result.mapError .LintsFailed ∧
      (∀ c ∈ (walkLints merged lints).calls, c.arg.decorations = lookup) ∧
      ∀ T nodeId,
        lookup.getAll T nodeId = (covering.flatMap fun m => Entries.getAll m.entries T nodeId) ∧
        lookup.first T nodeId =
          (covering.findSome? fun m => (Entries.held m.entries nodeId (D.KEY T)).head?).bind
            (Entry.read T) ∧
        ((∀ m ∈ covering, ∀ entry ∈ Entries.held m.entries nodeId (D.KEY T),
            entry.value.1 = T) →
          lookup.first T nodeId =
            covering.findSome? fun m => (Entries.getAll m.entries T nodeId).head?)) := by
  intro file ran covering gaps
  refine ⟨?_, ?_, ?_, ?_⟩
  · intro before p after e hsplit hbefore hp
    simp only [ran, runOnSource_fails hparse path lints hsplit hbefore hp, and_self]
  · exact runOnSource_uncovered_iff hparse path providers lints
  · intro hans hcov
    refine ⟨declining_all hans hcov, ?_⟩
    simp only [ran, runOnSource_eq hparse path lints hans]
    rw [if_pos (List.isEmpty_iff.mpr hcov)]
  · intro hans hcov merged lookup
    have hne : ¬ covering.isEmpty = true := fun h => hcov (List.isEmpty_iff.mp h)
    simp only [ran, runOnSource_eq hparse path lints hans]
    rw [if_neg hne]
    refine ⟨rfl, rfl, fun c hc => (call_view hc).1, fun T nodeId => ⟨?_, ?_, ?_⟩⟩
    · exact mergedTree_getAll file covering T nodeId
    · exact mergedTree_first file covering T nodeId
    · exact mergedTree_first_of_key file covering T nodeId

/-- A provider that covers every file and notes `text` on the root. -/
def notingProvider (text : String) : DecorationProvider noteTypes where
  name := ⟨"noting"⟩
  decorate _ := .ok (.Covered (DecorationMap.new.insert 0 () text))
  walksTree := true

def statementPipeline : Pipeline := { language := .Rust, parse := fun _ => some statementTree }

/-- Two providers note the root, and the lints read the note of the first. -/
theorem runOnSource_outcomes_noting :
    (runOnSource statementPipeline "abc;" ⟨"src/lib.rs"⟩
        [notingProvider "first", notingProvider "second"] [numberingLint 0]).walked.map
      (fun walked => walked.1.decorations.get () 0) = some (some "first") := by
  have h := (runOnSource_outcomes statementPipeline "abc;" ⟨"src/lib.rs"⟩
    [notingProvider "first", notingProvider "second"] [numberingLint 0] statementTree rfl).2.2.2
    (by simp [Answers, notingProvider]) (List.cons_ne_nil _ _)
  obtain ⟨hwalked, _, _, hreads⟩ := h
  rw [hwalked, Option.map_some]
  exact congrArg some ((hreads () 0).2.1.trans rfl)

end Stiles
