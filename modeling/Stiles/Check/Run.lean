import Stiles.Check.Report
import Stiles.Check.Grammar
import Stiles.CustomLints.Loaded

/-
  The check command (`check.rs`).

  `prepare` is the part of `run` before the loop over the files, `checkFile` is the body of the
  loop, `walkFiles` the loop and `conclude` the part after it. What the run asks of the world is
  `Env`: the file system, the configuration, the plugins, discovery, the providers, tree-sitter,
  the renderer and the presenter. The answers about a file are indexed by its place in the list,
  and those of the presenter by the number of outputs before.

  `CheckRun` carries two ghosts: the failures and the diagnostics that the locals of `run` held
  when it returned.
-/

namespace Stiles

variable {D : DecorationTypes}

/-- A pattern in the syntax of a `.gitignore`. -/
structure IgnorePattern where
  pattern : String
deriving DecidableEq, Repr

structure StilesConfig where
  /-- The directory of the configuration file. -/
  root : FilePath
  ignore : List IgnorePattern
  rules : RuleFilter
  options : RuleOptions

structure Discovery where
  files : List FilePath
  errors : List Anyhow
deriving DecidableEq

inductive WalkErrorPolicy where
  | Fail
  | ReportAndContinue
deriving DecidableEq, Repr

structure CheckArgs where
  path : FilePath
  keepGoing : Bool
  denyWarnings : Bool

/-- `Providers::for_file` of a loaded set of providers. -/
abbrev Providers (D : DecorationTypes) := FilePath → Language → List (DecorationProvider D)

/-- What a run asks of the world. -/
structure Env (D : DecorationTypes) where
  pathExists : FilePath → Bool
  loadConfig : FilePath → AnyhowResult StilesConfig
  libraries : StilesConfig → AnyhowResult (List (Library D)) × List PrebuiltNotice
  discover : FilePath → StilesConfig → WalkErrorPolicy → AnyhowResult Discovery
  loadProviders : FilePath → List FilePath → AnyhowResult (Providers D)
  setLanguage : Grammar → Except IoError (String → Option SyntaxTree)
  readToString : Nat → FilePath → Except IoError String
  renderToString : Diagnostic → Sources → AnyhowResult String
  present : Nat → Output → AnyhowResult Unit
  fromError : Anyhow → Exit

/-! ## Before the loop -/

/-- What the loop reads and never changes. -/
structure Setup (D : DecorationTypes) where
  threshold : FailureThreshold
  recovery : ErrorRecovery
  config : StilesConfig
  customLints : CustomLints D
  discovery : Discovery
  providers : Providers D
  outcome : CheckOutcome

/-- `CustomLints::load`, with the notices it leaves whether or not it succeeds. -/
def CustomLints.load (env : Env D) (config : StilesConfig) :
    AnyhowResult (CustomLints D) × List PrebuiltNotice :=
  let (libraries, notices) := env.libraries config
  match libraries with
  | .error e => (.error e, notices)
  | .ok libraries =>
    match loadLibraries libraries with
    | .error e => (.error e, notices)
    | .ok lints =>
      match withContext "failed to check the rules that the lints declare"
        (refuseSharedRules lints) with
      | .error e => (.error e, notices)
      | .ok () => (.ok { lints }, notices)

def CheckArgs.threshold (args : CheckArgs) : FailureThreshold :=
  match args.denyWarnings with
  | true => .Warnings
  | false => .Errors

def CheckArgs.recovery (args : CheckArgs) : ErrorRecovery :=
  match args.keepGoing with
  | true => .Continue
  | false => .Abort

def CheckArgs.onError (args : CheckArgs) : WalkErrorPolicy :=
  match args.keepGoing with
  | true => .ReportAndContinue
  | false => .Fail

/-- The files of the run and their providers. -/
def prepareFiles (env : Env D) (args : CheckArgs) (config : StilesConfig)
    (customLints : CustomLints D) (closing : ClosingText) :
    AnyhowResult (Setup D) × ClosingText :=
  match withContext "failed to discover source files"
    (env.discover args.path config args.onError) with
  | .error e => (.error e, closing)
  | .ok discovery =>
    let closing := closing.extend (discovery.errors.map .discoveryError)
    let outcome := if discovery.errors.isEmpty then CheckOutcome.Success else .Failure
    if discovery.files.isEmpty then
      (.error (.msg ("stiles analyzed no files under " ++ args.path.text ++ ": either nothing " ++
        "there is written in a language stiles has a grammar for, or the ignore files and " ++
        "configured patterns excluded all of it")), closing)
    else
      match env.loadProviders args.path discovery.files with
      | .error e => (.error e, closing)
      | .ok providers =>
        (.ok
          { threshold := args.threshold
            recovery := args.recovery
            config, customLints, discovery, providers, outcome }, closing)

/-- The custom lints of the run, against which the configuration is validated. -/
def prepareLints (env : Env D) (args : CheckArgs) (config : StilesConfig)
    (closing : ClosingText) : AnyhowResult (Setup D) × ClosingText :=
  let (customLints, notices) := CustomLints.load env config
  let closing := closing.extend (notices.map .notice)
  match withContext "failed to load the project's custom lints" customLints with
  | .error e => (.error e, closing)
  | .ok customLints =>
    let declared := customLints.declared
    match withContext "failed to read the project's [rules]" (config.rules.validate declared) with
    | .error e => (.error e, closing)
    | .ok () =>
      match withContext "failed to read the project's [rules.options]"
        ((config.options.validate declared).mapError ValidateRuleOptionsError.anyhow) with
      | .error e => (.error e, closing)
      | .ok () => prepareFiles env args config customLints closing

def prepare (env : Env D) (args : CheckArgs) (closing : ClosingText) :
    AnyhowResult (Setup D) × ClosingText :=
  if env.pathExists args.path then
    match withContext "failed to load the stiles configuration" (env.loadConfig args.path) with
    | .error e => (.error e, closing)
    | .ok config => prepareLints env args config closing
  else
    (.error (.msg (args.path.text ++ " does not exist")), closing)

/-- A load that succeeds leaves no rule with two lints on one language. -/
theorem CustomLints.load_ok {env : Env D} {config : StilesConfig} {custom : CustomLints D}
    (h : (CustomLints.load env config).1 = .ok custom) :
    refuseSharedRules custom.lints = .ok () := by
  unfold CustomLints.load at h
  cases hlibraries : (env.libraries config).1 with
  | error e => simp [hlibraries] at h
  | ok libraries =>
    simp only [hlibraries] at h
    cases hloaded : loadLibraries libraries with
    | error e => simp [hloaded] at h
    | ok lints =>
      simp only [hloaded] at h
      cases hrefused : refuseSharedRules lints with
      | error e => simp [hrefused] at h
      | ok u =>
        simp only [hrefused, withContext_ok, Except.ok.injEq] at h
        rw [← h]
        exact hrefused

/-- What `prepare` makes of the arguments, the discovery errors and the lints. -/
structure Prepared (args : CheckArgs) (setup : Setup D) : Prop where
  threshold : setup.threshold = args.threshold
  recovery : setup.recovery = args.recovery
  outcome : setup.outcome = .Success ↔ setup.discovery.errors = []
  unshared : refuseSharedRules setup.customLints.lints = .ok ()

theorem prepareFiles_ok {env : Env D} {args : CheckArgs} {config : StilesConfig}
    {custom : CustomLints D} {closing : ClosingText} {setup : Setup D}
    (hcustom : refuseSharedRules custom.lints = .ok ())
    (h : (prepareFiles env args config custom closing).1 = .ok setup) : Prepared args setup := by
  unfold prepareFiles at h
  split at h
  · simp at h
  · dsimp only at h
    split at h
    · simp at h
    · split at h
      · simp at h
      · simp only [Except.ok.injEq] at h
        subst h
        refine ⟨rfl, rfl, ?_, hcustom⟩
        dsimp only
        split <;> simp_all

/-- What the loop starts with: lints of which no two share a rule of one language. -/
theorem prepare_ok {env : Env D} {args : CheckArgs} {closing : ClosingText} {setup : Setup D}
    (h : (prepare env args closing).1 = .ok setup) : Prepared args setup := by
  unfold prepare at h
  split at h
  · split at h
    · simp at h
    · unfold prepareLints at h
      dsimp only at h
      split at h
      · simp at h
      · rename_i custom hload
        split at h
        · simp at h
        · split at h
          · simp at h
          · exact prepareFiles_ok (CustomLints.load_ok (withContext_eq_ok.mp hload)) h
  · simp at h

/-- The part before the loop names no failed file. -/
theorem prepare_failures (env : Env D) (args : CheckArgs) (closing : ClosingText) :
    (prepare env args closing).2.failures = closing.failures := by
  have hnotices : ∀ (closing : ClosingText) (notices : List PrebuiltNotice),
      (closing.extend (notices.map .notice)).failures = closing.failures := by
    intro closing notices
    rw [ClosingText.failures_extend, List.filterMap_map]
    exact (congrArg _ (List.filterMap_eq_nil_iff.mpr fun _ _ => rfl)).trans (List.append_nil _)
  have herrors : ∀ (closing : ClosingText) (errors : List Anyhow),
      (closing.extend (errors.map .discoveryError)).failures = closing.failures := by
    intro closing errors
    rw [ClosingText.failures_extend, List.filterMap_map]
    exact (congrArg _ (List.filterMap_eq_nil_iff.mpr fun _ _ => rfl)).trans (List.append_nil _)
  have hfiles : ∀ config custom (closing : ClosingText),
      (prepareFiles env args config custom closing).2.failures = closing.failures := by
    intro config custom closing
    unfold prepareFiles
    dsimp only
    repeat' split
    all_goals first
      | rfl
      | exact herrors _ _
  unfold prepare prepareLints
  dsimp only
  repeat' split
  all_goals first
    | rfl
    | exact hnotices _ _
    | exact (hfiles _ _ _).trans (hnotices _ _)

/-! ## The loop -/

/-- The locals that the loop changes. `sent` is what the presenter took. -/
structure Locals where
  pipelines : Grammar → Option Pipeline
  allDiagnostics : List Diagnostic
  sources : Sources
  remedies : CoverageRemedies
  failures : List FileFailure
  sent : List Output

def Locals.new : Locals :=
  { pipelines := fun _ => none
    allDiagnostics := []
    sources := .empty
    remedies := .default
    failures := []
    sent := [] }

/-- How the body of the loop ends: `continue`, `break`, or an error of the run. -/
inductive Flow where
  | next
  | stop
  | fail (e : Anyhow)
deriving DecidableEq

def Walk.flow : Walk → Flow
  | .Continue => .next
  | .Stop => .stop

/-- Sends one output, and keeps it if the presenter took it. -/
def send (env : Env D) (output : Output) (context : String) (sent : List Output) :
    AnyhowResult Unit × List Output :=
  match withContext context (env.present sent.length output) with
  | .error e => (.error e, sent)
  | .ok () => (.ok (), sent ++ [output])

/-- `recovery.record` on the locals. -/
def Locals.record (st : Locals) (recovery : ErrorRecovery) (file : FilePath) (error : Anyhow) :
    Flow × Locals :=
  let (walk, failures) := recovery.record st.failures file error
  (walk.flow, { st with failures })

/-- `pipelines.entry(grammar)`: the pipeline of the grammar, built on first use. -/
def Locals.pipeline (st : Locals) (env : Env D) (grammar : Grammar) :
    AnyhowResult Pipeline × Locals :=
  match st.pipelines grammar with
  | some pipeline => (.ok pipeline, st)
  | none =>
    match withContext "failed to initialize pipeline" (grammar.pipeline env.setLanguage) with
    | .error e => (.error e, st)
    | .ok pipeline =>
      (.ok pipeline, { st with pipelines := Function.update st.pipelines grammar (some pipeline) })

/-- The end of the body: what the pipeline returned for the file. -/
def keepResult (setup : Setup D) (file : FilePath) (source : String)
    (result : Except RunPipelineError (List Diagnostic)) (st : Locals) : Flow × Locals :=
  match result with
  | .ok diagnostics =>
    let diagnostics := diagnostics.filter fun diagnostic =>
      setup.config.rules.admits diagnostic.ruleId
    if diagnostics.isEmpty then (.next, st)
    else
      (.next, { st with
        sources := st.sources.insert file source
        allDiagnostics := st.allDiagnostics ++ diagnostics })
  | .error error =>
    let remedies :=
      match error with
      | .Uncovered source => st.remedies.record source
      | _ => st.remedies
    { st with remedies }.record setup.recovery file error.anyhow

/-- The part of the body after the file was read. -/
def checkSource (env : Env D) (setup : Setup D) (k : Nat) (file : FilePath) (source : String)
    (st : Locals) : Flow × Locals :=
  match withContext "failed to configure the custom lints"
    (setup.customLints.instantiate setup.config.options k) with
  | .error e => (.fail e, st)
  | .ok passes =>
    match Grammar.of file with
    | none => st.record setup.recovery file (.msg ("stiles has no grammar for " ++ file.text))
    | some grammar =>
      match st.pipeline env grammar with
      | (.error e, st) => (.fail e, st)
      | (.ok pipeline, st) =>
        let providers := setup.providers file grammar.language
        keepResult setup file source (runOnSource pipeline source file providers passes).result st

/-- The body of the loop, for file number `k`. -/
def checkFile (env : Env D) (setup : Setup D) (k : Nat) (file : FilePath) (st : Locals) :
    Flow × Locals :=
  match send env (.detail ("checking " ++ file.text)) "failed to report progress" st.sent with
  | (.error e, sent) => (.fail e, { st with sent })
  | (.ok (), sent) =>
    let st := { st with sent }
    match env.readToString k file with
    | .error e => st.record setup.recovery file ⟨e.message, []⟩
    | .ok source => checkSource env setup k file source st

/-- The loop over the files, from file number `k` on. -/
def walkFiles (env : Env D) (setup : Setup D) : Nat → List FilePath → Locals →
    AnyhowResult Unit × Locals
  | _, [], st => (.ok (), st)
  | k, file :: rest, st =>
    match checkFile env setup k file st with
    | (.next, st) => walkFiles env setup (k + 1) rest st
    | (.stop, st) => (.ok (), st)
    | (.fail e, st) => (.error e, st)

/-! ## After the loop -/

/-- How `run` returned, and what it left behind. -/
structure CheckRun where
  result : AnyhowResult ExitCode
  closing : ClosingText
  sent : List Output
  recorded : List FileFailure
  collected : List Diagnostic

/-- `CoverageRemedies::report`. -/
def reportRemedies (env : Env D) : List String → List Output → AnyhowResult Unit × List Output
  | [], sent => (.ok (), sent)
  | remedy :: rest, sent =>
    match send env (.message ("help: " ++ remedy)) "failed to report a remedy" sent with
    | (.error e, sent) => (.error e, sent)
    | (.ok (), sent) => reportRemedies env rest sent

/-- The loop that builds the findings and sends them. -/
def reportFindings (env : Env D) (sources : Sources) :
    List Diagnostic → List Output → AnyhowResult Unit × List Output
  | [], sent => (.ok (), sent)
  | diagnostic :: rest, sent =>
    match Finding.new env.renderToString diagnostic sources with
    | .error e => (.error e, sent)
    | .ok finding =>
      match send env (.artifact finding diagnostic) "failed to report a diagnostic" sent with
      | (.error e, sent) => (.error e, sent)
      | (.ok (), sent) => reportFindings env sources rest sent

def conclude (env : Env D) (setup : Setup D) (closing : ClosingText) (st : Locals) : CheckRun :=
  let closing := closing.extend (st.failures.map .failure)
  let outcome := if st.failures.isEmpty then setup.outcome else CheckOutcome.Failure
  let ended (result : AnyhowResult ExitCode) (sent : List Output) : CheckRun :=
    { result, closing, sent, recorded := st.failures, collected := st.allDiagnostics }
  match reportRemedies env st.remedies.remedies st.sent with
  | (.error e, sent) =>
    ended (.error (e.context "failed to report the remedies for uncovered files")) sent
  | (.ok (), sent) =>
  let allDiagnostics := st.allDiagnostics.map setup.threshold.promote
  match reportFindings env st.sources allDiagnostics sent with
  | (.error e, sent) => ended (.error e) sent
  | (.ok (), sent) =>
  match outcome.combine (CheckOutcome.fromDiagnostics allDiagnostics setup.threshold) with
  | .Failure => ended (.ok .FAILURE) sent
  | .Success => ended (.ok .SUCCESS) sent

def run (env : Env D) (args : CheckArgs) (closing : ClosingText) : CheckRun :=
  match prepare env args closing with
  | (.error e, closing) =>
    { result := .error e, closing, sent := [], recorded := [], collected := [] }
  | (.ok setup, closing) =>
    match walkFiles env setup 0 setup.discovery.files Locals.new with
    | (.error e, st) =>
      { result := .error e
        closing
        sent := st.sent
        recorded := st.failures
        collected := st.allDiagnostics }
    | (.ok (), st) => conclude env setup closing st

/-- The command: its exit carries the closing text, whether or not the run failed. -/
def check (env : Env D) (args : CheckArgs) : Exit :=
  let ran := run env args .default
  match ran.result with
  | .ok code => ran.closing.intoExit code
  | .error error => ran.closing.intoFailure (env.fromError error)

end Stiles
