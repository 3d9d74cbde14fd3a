import Stiles.Check.Verdict
import Stiles.Discovery.Walk

/-
  Discovery under its two policies.

  `RunForm` says how a run goes: it ends before the walk, or it goes over one stream of results. The
  policies differ in the stream only.

  * `run_fail_iff`, `run_fail_error`: the policy to fail in terms of the policy to continue.
  * `run_perm`: the order of the stream does not matter.
  * `policies_agree`: both policies, and the check run that goes over the files.
-/

namespace Stiles

namespace Discovery

/-! ## A whole run -/

/-- The walker with other results of its walks. -/
def Walker.giving (walker : Walker)
    (walk : FilePath → (WalkEntry → Bool) → List (Except WalkError WalkEntry)) : Walker :=
  { walker with walk }

/-- How a run goes, whatever a walk gives: it ends before the walk, or it goes over one. -/
inductive RunForm (walker : Walker) (path : FilePath) (config : StilesConfig) : Prop where
  | refused (e : Anyhow)
      (h : ∀ walk onError, run (walker.giving walk) path config onError = .error e)
  | single (h : ∀ walk onError, run (walker.giving walk) path config onError = runFile path)
  | directory (root : FilePath) (excludes : walker.Gitignore)
      (hfile : walker.isFile root = false)
      (h : ∀ walk onError, run (walker.giving walk) path config onError
        = runDirectory (walker.giving walk) excludes path root onError)

theorem run_directory {walker : Walker} {path root : FilePath} {config : StilesConfig}
    {excludes : walker.Gitignore} (hroot : walker.canonicalize path = .ok root)
    (hexcludes : buildExcludes walker config = .ok excludes)
    (hfile : walker.isFile root = false) (onError : WalkErrorPolicy) :
    run walker path config onError = runDirectory walker excludes path root onError := by
  rw [run, hroot, hexcludes]
  show (if walker.isFile root = true then _ else _) = _
  rw [hfile, if_neg Bool.false_ne_true]

theorem addPatterns_giving (walker : Walker)
    (walk : FilePath → (WalkEntry → Bool) → List (Except WalkError WalkEntry))
    (patterns : List IgnorePattern) (builder : walker.Builder) :
    addPatterns (walker.giving walk) builder patterns = addPatterns walker builder patterns := by
  induction patterns generalizing builder with
  | nil => rfl
  | cons pattern rest ih =>
    have hstep : ∀ walker : Walker, ∀ builder : walker.Builder,
        addPatterns walker builder (pattern :: rest)
          = (withContext ("failed to read the ignore pattern `" ++ pattern.pattern ++ "`")
              ((walker.addLine builder pattern.pattern).mapError fun e =>
                .msg (walker.display e))).bind fun builder => addPatterns walker builder rest := by
      intro walker builder
      rw [addPatterns]
      cases walker.addLine builder pattern.pattern <;> rfl
    rw [hstep walker]
    refine (hstep (walker.giving walk) builder).trans ?_
    exact congrArg (Except.bind _) (funext ih)

theorem buildExcludes_giving (walker : Walker)
    (walk : FilePath → (WalkEntry → Bool) → List (Except WalkError WalkEntry))
    (config : StilesConfig) :
    buildExcludes (walker.giving walk) config = buildExcludes walker config := by
  have hbuild : ∀ walker : Walker, buildExcludes walker config
      = (addPatterns walker (walker.new config.root) config.ignore).bind fun builder =>
        withContext "failed to compile the configured ignore patterns"
          ((walker.build builder).mapError fun e => .msg (walker.display e)) := by
    intro walker
    unfold buildExcludes
    cases addPatterns walker (walker.new config.root) config.ignore <;> rfl
  rw [hbuild walker]
  refine (hbuild (walker.giving walk)).trans ?_
  exact congrArg (fun built => Except.bind built _)
    (addPatterns_giving walker walk config.ignore (walker.new config.root))

theorem run_form (walker : Walker) (path : FilePath) (config : StilesConfig) :
    RunForm walker path config := by
  cases hroot : walker.canonicalize path with
  | error e =>
    refine .refused ((Anyhow.msg e.message).context ("failed to resolve " ++ path.text)) ?_
    intro walk onError
    have hsame : (walker.giving walk).canonicalize path = .error e := hroot
    rw [run, hsame]
    rfl
  | ok root =>
    have hsame : ∀ walk, (walker.giving walk).canonicalize path = .ok root := fun _ => hroot
    cases hexcludes : buildExcludes walker config with
    | error e =>
      refine .refused (e.context "failed to read the ignore patterns") fun walk onError => ?_
      rw [run, hsame, buildExcludes_giving walker walk config, hexcludes]
      rfl
    | ok excludes =>
      have hbuilt : ∀ walk, buildExcludes (walker.giving walk) config = .ok excludes :=
        fun walk => (buildExcludes_giving walker walk config).trans hexcludes
      cases hfile : walker.isFile root with
      | true =>
        refine .single fun walk onError => ?_
        rw [run, hsame, hbuilt]
        show (if walker.isFile root = true then _ else _) = _
        rw [hfile, if_pos rfl]
      | false =>
        exact .directory root excludes hfile fun walk onError =>
          run_directory (hsame walk) (hbuilt walk) hfile onError

theorem runFile_errors {path : FilePath} {discovery : Discovery}
    (h : runFile path = .ok discovery) : discovery.errors = [] := by
  unfold runFile at h
  split at h
  · cases h
  · split at h
    · cases h
    · rw [← Except.ok.inj h]

/-- The policy to fail succeeds with what the policy to continue finds without an error. -/
theorem run_fail_iff (walker : Walker) (path : FilePath) (config : StilesConfig)
    (discovery : Discovery) : run walker path config .Fail = .ok discovery ↔
      run walker path config .ReportAndContinue = .ok discovery ∧ discovery.errors = [] := by
  cases run_form walker path config with
  | refused e hrun =>
    have hsame := hrun walker.walk
    change ∀ onError, run walker path config onError = _ at hsame
    rw [hsame, hsame]
    simp
  | single hrun =>
    have hsame := hrun walker.walk
    change ∀ onError, run walker path config onError = _ at hsame
    rw [hsame, hsame]
    exact ⟨fun hok => ⟨hok, runFile_errors hok⟩, fun hok => hok.1⟩
  | directory root excludes hfile hrun =>
    have hsame := hrun walker.walk
    change ∀ onError, run walker path config onError = runDirectory walker _ _ _ _ at hsame
    obtain ⟨hcontinue, hfail⟩ := runDirectory_eq walker excludes path root
    rw [hsame, hsame, hcontinue, hfail]
    cases recorded walker (walker.walk root (admits walker excludes)) with
    | nil =>
      constructor
      · intro hok
        exact ⟨hok, (Except.ok.inj hok) ▸ rfl⟩
      · exact fun hok => hok.1
    | cons error rest =>
      constructor
      · intro hok
        cases hok
      · intro hok
        obtain ⟨hok, hnone⟩ := hok
        rw [← Except.ok.inj hok] at hnone
        cases hnone

/-- The policy to fail returns the first error that the policy to continue records, or the error
    before the walk. -/
theorem run_fail_error (walker : Walker) (path : FilePath) (config : StilesConfig) :
    (∀ discovery error rest, run walker path config .ReportAndContinue = .ok discovery →
      discovery.errors = error :: rest → run walker path config .Fail = .error error) ∧
    ∀ error, run walker path config .ReportAndContinue = .error error →
      run walker path config .Fail = .error error := by
  cases run_form walker path config with
  | refused e hrun =>
    have hsame : ∀ onError, run walker path config onError = .error e := hrun walker.walk
    rw [hsame, hsame]
    refine ⟨fun discovery error rest h => ?_, fun error h => h⟩
    cases h
  | single hrun =>
    have hsame : ∀ onError, run walker path config onError = runFile path := hrun walker.walk
    rw [hsame, hsame]
    refine ⟨fun discovery error rest h herrors => ?_, fun error h => h⟩
    rw [runFile_errors h] at herrors
    cases herrors
  | directory root excludes hfile hrun =>
    have hsame : ∀ onError, run walker path config onError
      = runDirectory walker excludes path root onError := hrun walker.walk
    obtain ⟨hcontinue, hfail⟩ := runDirectory_eq walker excludes path root
    rw [hsame, hsame, hcontinue, hfail]
    refine ⟨fun discovery error rest h herrors => ?_, fun error h => ?_⟩
    · rw [← Except.ok.inj h] at herrors
      dsimp only at herrors
      rw [herrors]
    · cases h

/-- The files do not depend on the order of the results. -/
theorem run_perm {walker : Walker} {path : FilePath} {config : StilesConfig}
    {onError : WalkErrorPolicy} {discovery : Discovery}
    {walk : FilePath → (WalkEntry → Bool) → List (Except WalkError WalkEntry)}
    (hperm : ∀ root filter, (walker.walk root filter).Perm (walk root filter))
    (h : run walker path config onError = .ok discovery) :
    ∃ other, run (walker.giving walk) path config onError = .ok other ∧
      other.files.map FilePath.components = discovery.files.map FilePath.components := by
  cases run_form walker path config with
  | refused e hrun =>
    have hsame : run walker path config onError = .error e := hrun walker.walk onError
    rw [hsame] at h
    cases h
  | single hrun =>
    have hsame : run walker path config onError = runFile path := hrun walker.walk onError
    rw [hsame] at h
    exact ⟨discovery, (hrun walk onError).trans h, rfl⟩
  | directory root excludes hfile hrun =>
    have hsame : run walker path config onError
      = runDirectory walker excludes path root onError := hrun walker.walk onError
    rw [hsame] at h
    rw [hrun walk onError]
    obtain ⟨hcontinue, hfail⟩ := runDirectory_eq walker excludes path root
    obtain ⟨hcontinue', hfail'⟩ := runDirectory_eq (walker.giving walk) excludes path root
    have hstream := hperm root (admits walker excludes)
    have hfiles := Keyed.sortBy_keys_perm FilePath.components
      (hstream.filterMap _ : (found path root _).Perm (found path root _))
    cases onError with
    | ReportAndContinue =>
      rw [hcontinue] at h
      rw [hcontinue']
      refine ⟨_, rfl, ?_⟩
      rw [← Except.ok.inj h]
      exact hfiles.symm
    | Fail =>
      have herrors : (recorded walker _).Perm (recorded walker _) := hstream.filterMap _
      rw [hfail] at h
      rw [hfail']
      cases hnone : recorded walker (walker.walk root (admits walker excludes)) with
      | nil =>
        rw [hnone] at h herrors
        have hnone' : recorded (walker.giving walk) ((walker.giving walk).walk root
            (admits (walker.giving walk) excludes)) = [] := List.nil_perm.mp herrors
        rw [hnone']
        refine ⟨_, rfl, ?_⟩
        rw [← Except.ok.inj h]
        exact hfiles.symm
      | cons error rest =>
        rw [hnone] at h
        cases h

/-- The files of a run are sorted, and each has a grammar. -/
theorem run_files {walker : Walker} {path : FilePath} {config : StilesConfig}
    {onError : WalkErrorPolicy} {discovery : Discovery} (htyped : RootTyped walker)
    (h : run walker path config onError = .ok discovery) :
    (discovery.files.map FilePath.components).Pairwise (· ≤ ·) ∧
      ∀ file ∈ discovery.files, ∃ grammar, Grammar.of file = some grammar := by
  cases run_form walker path config with
  | refused e hrun =>
    have hsame : run walker path config onError = .error e := hrun walker.walk onError
    rw [hsame] at h
    cases h
  | single hrun =>
    have hsame : run walker path config onError = runFile path := hrun walker.walk onError
    rw [hsame] at h
    refine ⟨?_, fun file hfile => runFile_grammar h hfile⟩
    unfold runFile at h
    split at h
    · cases h
    · split at h
      · cases h
      · rw [← Except.ok.inj h]
        exact List.pairwise_singleton _ _
  | directory root excludes hfile hrun =>
    have hsame : run walker path config onError
      = runDirectory walker excludes path root onError := hrun walker.walk onError
    rw [hsame] at h
    rw [runDirectory_sorted h]
    refine ⟨Keyed.pairwise_sortBy _ _, fun file hmem => ?_⟩
    exact found_grammar htyped hfile ((Keyed.mem_sortBy _).mp hmem)

/-! ## The check run -/

/-- The files of a prepared run were discovered. -/
theorem prepare_discovered {D : DecorationTypes} {env : Env D} {args : CheckArgs}
    {closing : ClosingText} {setup : Setup D} (h : (prepare env args closing).1 = .ok setup) :
    ∃ config, env.discover args.path config args.onError = .ok setup.discovery := by
  have hfiles : ∀ config custom (closing : ClosingText),
      (prepareFiles env args config custom closing).1 = .ok setup →
        env.discover args.path config args.onError = .ok setup.discovery := by
    intro config custom closing h
    unfold prepareFiles at h
    split at h
    · cases h
    · rename_i discovery hdiscover
      dsimp only at h
      split at h
      · cases h
      · split at h
        · cases h
        · rw [← Except.ok.inj h]
          exact withContext_eq_ok.mp hdiscover
  unfold prepare at h
  split at h
  · split at h
    · cases h
    · rename_i config hconfig
      unfold prepareLints at h
      dsimp only at h
      split at h
      · cases h
      · split at h
        · cases h
        · split at h
          · cases h
          · exact ⟨config, hfiles _ _ _ h⟩
  · cases h

/-- A file with a grammar never gets to the failure for want of one. -/
theorem checkSource_grammar {D : DecorationTypes} {env : Env D} {setup : Setup D} {k : Nat}
    {file : FilePath} {source : String} {st : Locals} {passes : List (Lint D)} {grammar : Grammar}
    (hgrammar : Grammar.of file = some grammar)
    (hpasses : setup.customLints.instantiate setup.config.options k = .ok passes) :
    checkSource env setup k file source st = match st.pipeline env grammar with
      | (.error e, st) => (.fail e, st)
      | (.ok pipeline, st) =>
        keepResult setup file source (runOnSource pipeline source file
          (setup.providers file grammar.language) passes).result st := by
  rw [checkSource, hpasses, hgrammar]
  rfl

/-- The policy to fail succeeds exactly if the policy to continue records no error, with the same
    files, and else it returns the first error that one records, or the error before the walk. The
    files are sorted, they do not depend on the order in which the walk gives its results, and each
    has a grammar, so a check run never fails for want of one. -/
theorem policies_agree {D : DecorationTypes} (walker : Walker) (path : FilePath)
    (config : StilesConfig) (env : Env D) (htyped : RootTyped walker)
    (hdiscover : env.discover = run walker) :
    (∀ discovery, run walker path config .Fail = .ok discovery ↔
      run walker path config .ReportAndContinue = .ok discovery ∧ discovery.errors = []) ∧
    (∀ discovery error rest, run walker path config .ReportAndContinue = .ok discovery →
      discovery.errors = error :: rest → run walker path config .Fail = .error error) ∧
    (∀ error, run walker path config .ReportAndContinue = .error error →
      run walker path config .Fail = .error error) ∧
    (∀ onError discovery, run walker path config onError = .ok discovery →
      (discovery.files.map FilePath.components).Pairwise (· ≤ ·) ∧
      (∀ file ∈ discovery.files, ∃ grammar, Grammar.of file = some grammar) ∧
      ∀ walk, (∀ root filter, (walker.walk root filter).Perm (walk root filter)) →
        ∃ other, run (walker.giving walk) path config onError = .ok other ∧
          other.files.map FilePath.components = discovery.files.map FilePath.components) ∧
    ∀ args closing setup, (prepare env args closing).1 = .ok setup →
      ∀ file ∈ setup.discovery.files, ∃ grammar, Grammar.of file = some grammar ∧
        ∀ k source st passes,
          setup.customLints.instantiate setup.config.options k = .ok passes →
          checkSource env setup k file source st = match st.pipeline env grammar with
            | (.error e, st) => (.fail e, st)
            | (.ok pipeline, st) =>
              keepResult setup file source (runOnSource pipeline source file
                (setup.providers file grammar.language) passes).result st := by
  obtain ⟨hfirst, hbefore⟩ := run_fail_error walker path config
  refine ⟨run_fail_iff walker path config, hfirst, hbefore, ?_, ?_⟩
  · intro onError discovery h
    obtain ⟨hsorted, hgrammar⟩ := run_files htyped h
    exact ⟨hsorted, hgrammar, fun walk hperm => run_perm hperm h⟩
  · intro args closing setup hprepare file hfile
    obtain ⟨config, hok⟩ := prepare_discovered hprepare
    rw [hdiscover] at hok
    obtain ⟨grammar, hgrammar⟩ := (run_files htyped hok).2 file hfile
    exact ⟨grammar, hgrammar, fun k source st passes hpasses =>
      checkSource_grammar hgrammar hpasses⟩

/-- A walk below `/project` gives these results, and no pattern matches anything. -/
def listedWalker (results : List (Except WalkError WalkEntry)) : Walker where
  Builder := Unit
  Gitignore := Unit
  new _ := ()
  addLine _ _ := .ok ()
  build _ := .ok ()
  matched _ _ _ := .None
  display _ := "unclosed alternate group"
  canonicalize _ := .ok ⟨"/project"⟩
  isFile _ := false
  walk root _ := if root = ⟨"/project"⟩ then results else []

def projectConfig : StilesConfig :=
  { root := ⟨"/project"⟩, ignore := [], rules := .All, options := ⟨[]⟩ }

/-- Two files, of which one stands beside an ignore file that cannot be understood. -/
def flawedResults : List (Except WalkError WalkEntry) :=
  [.ok ⟨⟨"/project"⟩, some .Dir, none⟩,
    .ok ⟨⟨"/project/src/main.rs"⟩, some .File, none⟩,
    .ok ⟨⟨"/project/src/lib.rs"⟩, some .File, some (.Glob (some "\x7ba,b") "unclosed")⟩]

theorem listedWalker_typed : RootTyped (listedWalker flawedResults) := by
  intro root filter entry hmem hsame htype
  change .ok entry ∈ (if root = ⟨"/project"⟩ then flawedResults else []) at hmem
  split at hmem
  · rename_i hroot
    rw [hroot, FilePath.Same] at hsame
    simp only [flawedResults, List.mem_cons, List.not_mem_nil, or_false, Except.ok.injEq] at hmem
    rcases hmem with rfl | rfl | rfl
    · cases htype
    · exact absurd hsame (by decide)
    · exact absurd hsame (by decide)
  · cases hmem

theorem policies_agree_flawed :
    run (listedWalker flawedResults) ⟨"."⟩ projectConfig .Fail
      = .error ⟨"failed to read an ignore file", ["unclosed alternate group"]⟩ := by
  refine (policies_agree (listedWalker flawedResults) ⟨"."⟩ projectConfig
    { projectEnv [] (fun _ _ => .ok "") (fun _ => .ok (numberingPass 0)) with
      discover := run (listedWalker flawedResults) } listedWalker_typed rfl).2.1
    { files := [⟨"./src/lib.rs"⟩, ⟨"./src/main.rs"⟩]
      errors := [⟨"failed to read an ignore file", ["unclosed alternate group"]⟩] } _ [] ?_ rfl
  decide

end Discovery

end Stiles
