import Stiles.Check.Verdict
import Stiles.Discovery.Policies

/-
  Two check runs of one project, side by side.

  `Prepares` says what the part before the loop makes of the world, and `run_leaves` what a run
  leaves behind, whether or not it ends well. Runs that differ in one thing are compared through
  them.

  * `modes_agree`: an abort run and a keep-going run give one verdict. If either succeeds, they are
    one and the same run.
  * `deny_warnings`: `--deny-warnings` raises severities, and changes nothing where there is no
    warning.
-/

namespace Stiles

open Batch (Outcome)

variable {D : DecorationTypes}

/-! ## The part before the loop -/

/-- What the part before the loop makes of the world, when it succeeds. -/
structure Prepares (env : Env D) (args : CheckArgs) (setup : Setup D) : Prop where
  pathExists : env.pathExists args.path = true
  config : env.loadConfig args.path = .ok setup.config
  customLints : (CustomLints.load env setup.config).1 = .ok setup.customLints
  rules : setup.config.rules.validate setup.customLints.declared = .ok ()
  options : setup.config.options.validate setup.customLints.declared = .ok ()
  discovery : env.discover args.path setup.config args.onError = .ok setup.discovery
  files : setup.discovery.files ≠ []
  providers : env.loadProviders args.path setup.discovery.files = .ok setup.providers
  threshold : setup.threshold = args.threshold
  recovery : setup.recovery = args.recovery
  outcome : setup.outcome =
    if setup.discovery.errors.isEmpty then CheckOutcome.Success else .Failure

/-- The closing text that the part before the loop hands on. -/
def openingText (env : Env D) (setup : Setup D) (closing : ClosingText) : ClosingText :=
  (closing.extend ((CustomLints.load env setup.config).2.map .notice)).extend
    (setup.discovery.errors.map .discoveryError)

theorem Prepares.prepare_eq {env : Env D} {args : CheckArgs} {setup : Setup D}
    (h : Prepares env args setup) (closing : ClosingText) :
    prepare env args closing = (.ok setup, openingText env setup closing) := by
  have hfiles : setup.discovery.files.isEmpty = false := by simpa using h.files
  have hcustom := h.customLints
  unfold prepare prepareLints openingText
  rw [h.pathExists, if_pos rfl, h.config]
  simp only [withContext_ok]
  generalize CustomLints.load env setup.config = loaded at hcustom ⊢
  obtain ⟨custom, notices⟩ := loaded
  rw [show custom = .ok setup.customLints from hcustom]
  simp only [withContext_ok, h.rules, h.options, Except.mapError, prepareFiles, h.discovery, hfiles,
    Bool.false_eq_true, if_false, h.providers, ← h.threshold, ← h.recovery, ← h.outcome]

theorem prepareFiles_eq_ok {env : Env D} {args : CheckArgs} {config : StilesConfig}
    {custom : CustomLints D} {closing : ClosingText} {setup : Setup D}
    (h : (prepareFiles env args config custom closing).1 = .ok setup) :
    ∃ discovery providers, env.discover args.path config args.onError = .ok discovery ∧
      discovery.files ≠ [] ∧ env.loadProviders args.path discovery.files = .ok providers ∧
      setup =
        { threshold := args.threshold
          recovery := args.recovery
          config
          customLints := custom
          discovery
          providers
          outcome := if discovery.errors.isEmpty then CheckOutcome.Success else .Failure } := by
  unfold prepareFiles at h
  split at h
  · cases h
  · rename_i discovery hdiscovery
    dsimp only at h
    split at h
    · cases h
    · rename_i hfiles
      split at h
      · cases h
      · rename_i providers hproviders
        refine ⟨discovery, providers, withContext_eq_ok.mp hdiscovery, ?_, hproviders, ?_⟩
        · simpa using hfiles
        · exact (Except.ok.inj h).symm

theorem prepares_of_ok {env : Env D} {args : CheckArgs} {closing : ClosingText} {setup : Setup D}
    (h : (prepare env args closing).1 = .ok setup) : Prepares env args setup := by
  unfold prepare at h
  split at h
  · rename_i hpath
    split at h
    · cases h
    · rename_i config hconfig
      unfold prepareLints at h
      dsimp only at h
      split at h
      · cases h
      · rename_i custom hcustom
        split at h
        · cases h
        · rename_i hrules
          split at h
          · cases h
          · rename_i hoptions
            obtain ⟨discovery, providers, hdiscovery, hfiles, hproviders, rfl⟩ :=
              prepareFiles_eq_ok h
            exact
              { pathExists := hpath
                config := withContext_eq_ok.mp hconfig
                customLints := withContext_eq_ok.mp hcustom
                rules := withContext_eq_ok.mp hrules
                options := mapError_eq_ok.mp (withContext_eq_ok.mp hoptions)
                discovery := hdiscovery
                files := hfiles
                providers := hproviders
                threshold := rfl
                recovery := rfl
                outcome := rfl }
  · cases h

theorem Prepares.prepare_ok {env : Env D} {args : CheckArgs} {setup : Setup D}
    (h : Prepares env args setup) (closing : ClosingText) :
    (prepare env args closing).1 = .ok setup := by
  rw [h.prepare_eq]

/-- A run that returns an exit code was prepared. -/
theorem prepares_of_code {env : Env D} {args : CheckArgs} {closing : ClosingText}
    {code : ExitCode} (hdone : (run env args closing).result = .ok code) :
    ∃ setup, Prepares env args setup := by
  obtain ⟨setup, hprepare, -⟩ := run_settled hdone
  exact ⟨setup, prepares_of_ok hprepare⟩

/-- `run_settled` for a run whose setup is known. -/
theorem Prepares.settled {env : Env D} {args : CheckArgs} {closing : ClosingText}
    {setup : Setup D} (h : Prepares env args setup) {code : ExitCode}
    (hdone : (run env args closing).result = .ok code) :
    let ran := run env args closing
    let batch := Batch.settle (setup.recovery = .Abort) (fileOutcomes env setup)
    batch.2 = none ∧
      progress ran.sent = checkingLines (setup.discovery.files.take batch.1.length) ∧
      reported ran.sent = (diagnosticsOf batch.1).map setup.threshold.promote ∧
      (code = .SUCCESS ↔ failuresOf batch.1 = [] ∧ setup.discovery.errors = [] ∧
        ∀ d ∈ diagnosticsOf batch.1, setup.threshold.isMetBy d.severity = false) := by
  obtain ⟨other, hprepare, hsettled⟩ := run_settled hdone
  rw [h.prepare_ok, Except.ok.injEq] at hprepare
  subst hprepare
  exact hsettled

/-! ## The loop and the part after it -/

/-- How a run goes on with what the loop left. -/
def afterLoop (env : Env D) (setup : Setup D) (closing : ClosingText) :
    AnyhowResult Unit × Locals → CheckRun
  | (.error e, st) =>
    { result := .error e
      closing
      sent := st.sent
      recorded := st.failures
      collected := st.allDiagnostics }
  | (.ok (), st) => conclude env setup closing st

theorem Prepares.run_eq {env : Env D} {args : CheckArgs} {setup : Setup D}
    (h : Prepares env args setup) (closing : ClosingText) :
    run env args closing = afterLoop env setup (openingText env setup closing)
      (walkFiles env setup 0 setup.discovery.files Locals.new) := by
  unfold run
  rw [h.prepare_eq]
  dsimp only
  generalize walkFiles env setup 0 setup.discovery.files Locals.new = walked
  obtain ⟨ended, st⟩ := walked
  cases ended <;> rfl

/-- The loop reports no finding. -/
theorem reported_walkFiles (env : Env D) (setup : Setup D) :
    reported (walkFiles env setup 0 setup.discovery.files Locals.new).2.sent = [] := by
  have hloop := walkFiles_settles setup setup.discovery.files (tracks_new env)
  unfold LoopEnds at hloop
  split at hloop
  · obtain ⟨-, htracks⟩ := hloop
    change Tracks env _ _ (walkFiles env setup 0 _ _).2 at htracks
    rw [htracks.sent, reported_checking]
  · exact hloop.2.reported

theorem conclude_closing (env : Env D) (setup : Setup D) (closing : ClosingText) (st : Locals) :
    (conclude env setup closing st).closing = closing.extend (st.failures.map .failure) := by
  unfold conclude
  generalize reportRemedies env st.remedies.remedies st.sent = remedied
  obtain ⟨remedy, sent⟩ := remedied
  cases remedy with
  | error e => rfl
  | ok u =>
    dsimp only
    generalize reportFindings env st.sources (st.allDiagnostics.map setup.threshold.promote) sent =
      found
    obtain ⟨finding, sent'⟩ := found
    cases finding with
    | error e => rfl
    | ok v =>
      dsimp only
      split <;> rfl

/-- What a run leaves behind, whether or not it ends well: the failures and the diagnostics of the
    files it settled. A run that a file interrupts names no failure in its closing text. -/
theorem Prepares.leaves {env : Env D} {args : CheckArgs} {setup : Setup D}
    (h : Prepares env args setup) (closing : ClosingText) :
    let ran := run env args closing
    let batch := Batch.settle (setup.recovery = .Abort) (fileOutcomes env setup)
    let opening := openingText env setup closing
    ran.recorded = failuresOf batch.1 ∧ ran.collected = diagnosticsOf batch.1 ∧
      ran.closing =
        (match batch.2 with
        | none => opening.extend ((failuresOf batch.1).map .failure)
        | some _ => opening) ∧
      ∀ e, batch.2 = some e → ran.result = .error e := by
  intro ran batch opening
  have hloop := walkFiles_settles setup setup.discovery.files (tracks_new env)
  change LoopEnds env [] [] _ batch (walkFiles env setup 0 _ _) at hloop
  have hran : ran = _ := h.run_eq closing
  rw [hran]
  unfold LoopEnds at hloop
  generalize walkFiles env setup 0 setup.discovery.files Locals.new = walked at hloop
  obtain ⟨ended, st⟩ := walked
  cases hbatch : batch.2 with
  | none =>
    rw [hbatch] at hloop
    obtain ⟨hok, htracks⟩ := hloop
    dsimp only at hok
    subst hok
    obtain ⟨hrecorded, hcollected, -, -⟩ := conclude_frame env setup opening st
    have hfailures : st.failures = failuresOf batch.1 := by simpa using htracks.failures
    have hdiagnostics : st.allDiagnostics = diagnosticsOf batch.1 := by
      simpa using htracks.diagnostics
    refine ⟨hrecorded.trans hfailures, hcollected.trans hdiagnostics, ?_, nofun⟩
    show (conclude env setup opening st).closing = _
    rw [conclude_closing, hfailures]
  | some e =>
    rw [hbatch] at hloop
    obtain ⟨herr, hinterrupted⟩ := hloop
    dsimp only at herr
    subst herr
    refine ⟨hinterrupted.failures, hinterrupted.diagnostics, rfl, ?_⟩
    intro e' he'
    rw [Option.some.injEq] at he'
    rw [← he']
    rfl

theorem outcomesFrom_map {env env' : Env D} {setup setup' : Setup D}
    {f : FileOutcome → FileOutcome}
    (h : ∀ k file, fileOutcome env' setup' k file = f (fileOutcome env setup k file))
    (k : Nat) (files : List FilePath) :
    outcomesFrom env' setup' k files = (outcomesFrom env setup k files).map f := by
  induction files generalizing k with
  | nil => rfl
  | cons file rest ih => rw [outcomesFrom, h, ih, outcomesFrom, List.map_cons]

theorem diagnosticsOf_append (settled rest : List FileOutcome) :
    diagnosticsOf (settled ++ rest) = diagnosticsOf settled ++ diagnosticsOf rest := by
  simp [diagnosticsOf]

/-! ## Abort and keep going -/

def Setup.withRecovery (setup : Setup D) (recovery : ErrorRecovery) : Setup D :=
  { setup with recovery }

/-- What becomes of a file does not depend on what the run does after a failure. -/
theorem fileOutcomes_withRecovery (env : Env D) (setup : Setup D) (recovery : ErrorRecovery) :
    fileOutcomes env (setup.withRecovery recovery) = fileOutcomes env setup := by
  have hsame : ∀ k files, outcomesFrom env (setup.withRecovery recovery) k files =
      (outcomesFrom env setup k files).map id := outcomesFrom_map fun _ _ => rfl
  show outcomesFrom env (setup.withRecovery recovery) 0 setup.discovery.files = _
  rw [hsame, List.map_id]
  rfl

theorem record_withRecovery (st : Locals) (recovery other : ErrorRecovery) (file : FilePath)
    (error : Anyhow) :
    (st.record recovery file error).2 = (st.record other file error).2 := by
  rw [record_eq, record_eq]

theorem keepResult_withRecovery (setup : Setup D) (recovery : ErrorRecovery) (file : FilePath)
    (source : String) (result : Except RunPipelineError (List Diagnostic)) (st : Locals) :
    (keepResult (setup.withRecovery recovery) file source result st).2 =
      (keepResult setup file source result st).2 := by
  cases result with
  | ok diagnostics =>
    rw [keepResult_ok, keepResult_ok]
    rfl
  | error error => exact record_withRecovery _ _ _ _ _

/-- The body of the loop does the same to the locals whatever comes after a failure. -/
theorem checkFile_withRecovery (env : Env D) (setup : Setup D) (recovery : ErrorRecovery) (k : Nat)
    (file : FilePath) (st : Locals) :
    (checkFile env (setup.withRecovery recovery) k file st).2 =
      (checkFile env setup k file st).2 := by
  have hsource : ∀ source st, (checkSource env (setup.withRecovery recovery) k file source st).2 =
      (checkSource env setup k file source st).2 := by
    intro source st
    unfold checkSource
    rw [show (setup.withRecovery recovery).customLints = setup.customLints from rfl,
      show (setup.withRecovery recovery).config = setup.config from rfl]
    cases withContext "failed to configure the custom lints"
        (setup.customLints.instantiate setup.config.options k) with
    | error e => rfl
    | ok passes =>
      dsimp only
      cases Grammar.of file with
      | none => exact record_withRecovery _ _ _ _ _
      | some grammar =>
        dsimp only
        generalize st.pipeline env grammar = built
        obtain ⟨answer, st'⟩ := built
        cases answer with
        | error e => rfl
        | ok pipeline =>
          exact keepResult_withRecovery setup recovery file source _ st'
  unfold checkFile
  generalize send env (.detail ("checking " ++ file.text)) "failed to report progress" st.sent =
    sending
  obtain ⟨answer, sent⟩ := sending
  cases answer with
  | error e => rfl
  | ok u =>
    dsimp only
    cases env.readToString k file with
    | error e => exact record_withRecovery _ _ _ _ _
    | ok source => exact hsource source _

/-- A loop over files that are all done goes the same way in both modes. -/
theorem walkFiles_withRecovery {env : Env D} (setup : Setup D) (recovery : ErrorRecovery)
    (files : List FilePath) {visited : List FilePath} {settled : List FileOutcome} {st : Locals}
    (h : Tracks env visited settled st)
    (hdone : ∀ o ∈ outcomesFrom env setup visited.length files, ∃ checked, o = .done checked) :
    walkFiles env (setup.withRecovery recovery) visited.length files st =
      walkFiles env setup visited.length files st := by
  induction files generalizing visited settled st with
  | nil => rfl
  | cons file rest ih =>
    have hstep := checkFile_settles setup h file
    have hstep' := checkFile_settles (setup.withRecovery recovery) h file
    have hlocals := checkFile_withRecovery env setup recovery visited.length file st
    obtain ⟨checked, hchecked⟩ := hdone _ List.mem_cons_self
    rw [show fileOutcome env (setup.withRecovery recovery) visited.length file =
      fileOutcome env setup visited.length file from rfl] at hstep'
    rw [hchecked] at hstep hstep'
    obtain ⟨hflow, htracks⟩ := hstep
    obtain ⟨hflow', -⟩ := hstep'
    rw [walkFiles, walkFiles]
    generalize checkFile env (setup.withRecovery recovery) visited.length file st = ran'
      at hflow' hlocals
    generalize checkFile env setup visited.length file st = ran at hflow htracks hlocals
    obtain ⟨flow', st'⟩ := ran'
    obtain ⟨flow, st''⟩ := ran
    dsimp only at hflow hflow' hlocals htracks
    subst hflow hflow' hlocals
    have hrest := ih htracks
    rw [List.length_append] at hrest
    exact hrest fun o ho => hdone o (List.mem_cons_of_mem _ ho)

/-- A run whose files are all done is one run in both modes. -/
theorem Prepares.run_withRecovery {env : Env D} {args other : CheckArgs} {setup : Setup D}
    {recovery : ErrorRecovery} (h : Prepares env args setup)
    (hother : Prepares env other (setup.withRecovery recovery)) (closing : ClosingText)
    (hdone : ∀ o ∈ fileOutcomes env setup, ∃ checked, o = .done checked) :
    run env other closing = run env args closing := by
  rw [h.run_eq, hother.run_eq]
  have hwalk := walkFiles_withRecovery setup recovery setup.discovery.files (tracks_new env) hdone
  rw [show (setup.withRecovery recovery).discovery = setup.discovery from rfl]
  change walkFiles env (setup.withRecovery recovery) 0 _ _ = _ at hwalk
  rw [hwalk]
  generalize walkFiles env setup 0 setup.discovery.files Locals.new = walked
  obtain ⟨ended, st⟩ := walked
  cases ended <;> rfl

section Modes

variable {env : Env D} {walker : Discovery.Walker} {path : FilePath} {deny : Bool}

/-- The arguments of the two runs, which differ in `--keep-going`. -/
def CheckArgs.mode (path : FilePath) (deny keepGoing : Bool) : CheckArgs :=
  { path, keepGoing, denyWarnings := deny }

/-- What an abort run starts with is what a keep-going run starts with, if discovery records no
    error. -/
theorem prepares_modes (hdiscover : env.discover = Discovery.run walker) (setup : Setup D) :
    Prepares env (.mode path deny false) (setup.withRecovery .Abort) ↔
      Prepares env (.mode path deny true) (setup.withRecovery .Continue) ∧
        setup.discovery.errors = [] := by
  have hpolicies := fun config => Discovery.run_fail_iff walker path config setup.discovery
  constructor
  · intro h
    have hfound := h.discovery
    rw [hdiscover] at hfound
    obtain ⟨hfound, herrors⟩ := (hpolicies _).mp hfound
    rw [← hdiscover] at hfound
    exact ⟨{ h with discovery := hfound, recovery := rfl }, herrors⟩
  · rintro ⟨h, herrors⟩
    have hfound := h.discovery
    rw [hdiscover] at hfound
    have hfail := (hpolicies _).mpr ⟨hfound, herrors⟩
    rw [← hdiscover] at hfail
    exact { h with discovery := hfail, recovery := rfl }

theorem withRecovery_self {setup : Setup D} {recovery : ErrorRecovery}
    (h : setup.recovery = recovery) : setup.withRecovery recovery = setup := by
  subst h
  rfl

/-- A run that returns an exit code in abort mode is prepared for both modes. -/
theorem prepares_of_abort (hdiscover : env.discover = Discovery.run walker)
    {closing : ClosingText} {code : ExitCode}
    (hdone : (run env (.mode path deny false) closing).result = .ok code) :
    ∃ setup : Setup D, Prepares env (.mode path deny false) (setup.withRecovery .Abort) ∧
      Prepares env (.mode path deny true) (setup.withRecovery .Continue) := by
  obtain ⟨setup, h⟩ := prepares_of_code hdone
  have hself : setup.withRecovery .Abort = setup := withRecovery_self h.recovery
  rw [← hself] at h
  exact ⟨setup, h, ((prepares_modes hdiscover setup).mp h).1⟩

/-- So is a keep-going run that succeeds. -/
theorem prepares_of_keepGoing (hdiscover : env.discover = Discovery.run walker)
    {closing : ClosingText}
    (hdone : (run env (.mode path deny true) closing).result = .ok .SUCCESS) :
    ∃ setup : Setup D, Prepares env (.mode path deny false) (setup.withRecovery .Abort) ∧
      Prepares env (.mode path deny true) (setup.withRecovery .Continue) := by
  obtain ⟨setup, h⟩ := prepares_of_code hdone
  have herrors := ((h.settled hdone).2.2.2.mp rfl).2.1
  have hself : setup.withRecovery .Continue = setup := withRecovery_self h.recovery
  rw [← hself] at h
  exact ⟨setup, (prepares_modes hdiscover setup).mpr ⟨h, herrors⟩, h⟩

theorem settled_withRecovery {args : CheckArgs} {setup : Setup D} {recovery : ErrorRecovery}
    (h : Prepares env args (setup.withRecovery recovery)) {closing : ClosingText} {code : ExitCode}
    (hdone : (run env args closing).result = .ok code) :
    let ran := run env args closing
    let batch := Batch.settle (recovery = .Abort) (fileOutcomes env setup)
    batch.2 = none ∧
      progress ran.sent = checkingLines (setup.discovery.files.take batch.1.length) ∧
      reported ran.sent = (diagnosticsOf batch.1).map setup.threshold.promote ∧
      ran.recorded = failuresOf batch.1 ∧
      (code = .SUCCESS → failuresOf batch.1 = []) := by
  have hsettled := h.settled hdone
  have hleaves := h.leaves closing
  rw [fileOutcomes_withRecovery] at hsettled hleaves
  obtain ⟨hbatch, hprogress, hreported, hverdict⟩ := hsettled
  exact ⟨hbatch, hprogress, hreported, hleaves.1, fun hcode => (hverdict.mp hcode).1⟩

/-- Files that are all done make one run of the two. -/
theorem modes_same {setup : Setup D}
    (habort : Prepares env (.mode path deny false) (setup.withRecovery .Abort))
    (hkeep : Prepares env (.mode path deny true) (setup.withRecovery .Continue))
    (closing : ClosingText)
    (hdone : ∀ o ∈ fileOutcomes env setup, ∃ checked, o = .done checked) :
    run env (.mode path deny false) closing = run env (.mode path deny true) closing := by
  rw [← fileOutcomes_withRecovery env setup .Continue] at hdone
  exact hkeep.run_withRecovery habort closing hdone

/-- The two modes give one verdict. If a run succeeds in either, it is the same run in both: what
    is sent, the closing text and the findings. Else the abort run visits, reports and records a
    first part of what the keep-going run does, and of the failures it records the first. -/
theorem modes_agree (env : Env D) (walker : Discovery.Walker)
    (hdiscover : env.discover = Discovery.run walker) (path : FilePath) (deny : Bool)
    (closing : ClosingText) :
    let abort := run env (.mode path deny false) closing
    let keep := run env (.mode path deny true) closing
    (abort.result = .ok .SUCCESS ∨ keep.result = .ok .SUCCESS → abort = keep) ∧
    ∀ code code', abort.result = .ok code → keep.result = .ok code' →
      code = code' ∧
      progress abort.sent <+: progress keep.sent ∧
      reported abort.sent <+: reported keep.sent ∧
      abort.recorded = keep.recorded.take 1 ∧
      (keep.recorded = [] → abort = keep) := by
  intro abort keep
  have hsame : abort.result = .ok .SUCCESS ∨ keep.result = .ok .SUCCESS → abort = keep := by
    rintro (hdone | hdone)
    · obtain ⟨setup, habort, hkeep⟩ := prepares_of_abort hdiscover hdone
      obtain ⟨hbatch, -, -, -, hnone⟩ := settled_withRecovery habort hdone
      exact modes_same habort hkeep closing
        (Batch.done_of_no_failure hbatch (List.map_eq_nil_iff.mp (hnone rfl)))
    · obtain ⟨setup, habort, hkeep⟩ := prepares_of_keepGoing hdiscover hdone
      obtain ⟨hbatch, -, -, -, hnone⟩ := settled_withRecovery hkeep hdone
      exact modes_same habort hkeep closing
        (Batch.done_of_no_failure hbatch (List.map_eq_nil_iff.mp (hnone rfl)))
  refine ⟨hsame, fun code code' hcode hcode' => ?_⟩
  obtain ⟨setup, habort, hkeep⟩ := prepares_of_abort hdiscover hcode
  obtain ⟨hbatch, hprogress, hreported, hrecorded, -⟩ := settled_withRecovery habort hcode
  obtain ⟨hbatch', hprogress', hreported', hrecorded', -⟩ := settled_withRecovery hkeep hcode'
  have hall : (Batch.settle false (fileOutcomes env setup)).1 = fileOutcomes env setup := by
    have hkeepGoing := Batch.settle_keepGoing (fileOutcomes env setup)
    rw [show (Batch.settle false (fileOutcomes env setup)).2 = none from hbatch'] at hkeepGoing
    exact hkeepGoing.1
  have hprefix := Batch.settle_prefix true (fileOutcomes env setup)
  have hfirst := Batch.failures_settle_stop hbatch
  change reported keep.sent = (diagnosticsOf (Batch.settle false _).1).map _ at hreported'
  change progress keep.sent = checkingLines (List.take (Batch.settle false _).1.length _)
    at hprogress'
  change keep.recorded = failuresOf (Batch.settle false _).1 at hrecorded'
  rw [hall] at hreported' hprogress' hrecorded'
  refine ⟨?_, ?_, ?_, ?_, ?_⟩
  · have hboth : code = .SUCCESS ↔ code' = .SUCCESS := by
      constructor
      · intro h
        rw [h] at hcode
        rw [← hsame (Or.inl hcode), hcode] at hcode'
        exact (Except.ok.inj hcode').symm
      · intro h
        rw [h] at hcode'
        rw [hsame (Or.inr hcode'), hcode'] at hcode
        exact (Except.ok.inj hcode).symm
    cases code <;> cases code' <;> simp_all
  · rw [hprogress, hprogress']
    exact (List.take_prefix_take_left hprefix.length_le).map _
  · rw [hreported, hreported']
    obtain ⟨rest, hrest⟩ := hprefix
    have hsplit := congrArg diagnosticsOf hrest
    rw [diagnosticsOf_append] at hsplit
    refine ⟨(diagnosticsOf rest).map setup.threshold.promote, ?_⟩
    rw [← hsplit, List.map_append]
    rfl
  · rw [hrecorded, hrecorded', failuresOf, failuresOf, ← List.map_take]
    exact congrArg _ hfirst
  · intro hnone
    rw [hrecorded'] at hnone
    rw [← hall] at hnone
    exact modes_same habort hkeep closing
      (Batch.done_of_no_failure hbatch' (List.map_eq_nil_iff.mp hnone))

/-- Two files, in the order in which a walk gives them. -/
def twoFileWalker : Discovery.Walker :=
  Discovery.listedWalker [.ok ⟨⟨"/project/src/main.rs"⟩, some .File, none⟩,
    .ok ⟨⟨"/project/src/lib.rs"⟩, some .File, none⟩]

/-- None of the files can be read. -/
def unreadableEnv : Env noteTypes :=
  { projectEnv [] (fun _ _ => .error ⟨"stream did not contain valid UTF-8"⟩)
      (fun _ => .ok (numberingPass 0)) with
    discover := Discovery.run twoFileWalker }

/-- The abort run records the first of the files. -/
theorem modes_agree_unreadable :
    let keep := run unreadableEnv (.mode ⟨"."⟩ false true) .default
    keep.recorded.map FileFailure.file = [⟨"./src/lib.rs"⟩, ⟨"./src/main.rs"⟩] ∧
      (run unreadableEnv (.mode ⟨"."⟩ false false) .default).recorded = keep.recorded.take 1 :=
  ⟨by decide, ((modes_agree unreadableEnv twoFileWalker rfl ⟨"."⟩ false .default).2 .FAILURE
    .FAILURE (by decide) (by decide)).2.2.2.1⟩

end Modes

/-! ## Denying warnings -/

def Setup.withThreshold (setup : Setup D) (threshold : FailureThreshold) : Setup D :=
  { setup with threshold }

theorem walkFiles_withThreshold (env : Env D) (setup : Setup D) (threshold : FailureThreshold)
    (k : Nat) (files : List FilePath) (st : Locals) :
    walkFiles env (setup.withThreshold threshold) k files st = walkFiles env setup k files st := by
  induction files generalizing k st with
  | nil => rfl
  | cons file rest ih =>
    rw [walkFiles, walkFiles, show checkFile env (setup.withThreshold threshold) k file st =
      checkFile env setup k file st from rfl]
    generalize checkFile env setup k file st = ran
    obtain ⟨flow, st'⟩ := ran
    cases flow with
    | next => exact ih (k + 1) st'
    | stop => rfl
    | fail e => rfl

/-- Without a warning, the two thresholds promote and count the same diagnostics. -/
theorem promote_of_not_warn {d : Diagnostic} (h : d.severity ≠ .Warn) :
    FailureThreshold.Warnings.promote d = FailureThreshold.Errors.promote d ∧
      FailureThreshold.Warnings.isMetBy d.severity =
        FailureThreshold.Errors.isMetBy d.severity := by
  have hmet : FailureThreshold.Warnings.isMetBy d.severity =
      FailureThreshold.Errors.isMetBy d.severity := by
    cases hseverity : d.severity with
    | Warn => exact absurd hseverity h
    | Help => rfl
    | Info => rfl
    | Error => rfl
  refine ⟨?_, hmet⟩
  rw [FailureThreshold.promote_eq, FailureThreshold.promote_eq, hmet]

/-- An error is at error severity already. -/
theorem promote_errors (d : Diagnostic) : FailureThreshold.Errors.promote d = d := by
  have hsame : (if FailureThreshold.Errors.isMetBy d.severity then Severity.Error else d.severity) =
      d.severity := by
    cases d.severity <;> rfl
  rw [FailureThreshold.promote_eq, hsame, Diagnostic.withSeverity_self]

theorem isMetBy_warnings (severity : Severity) :
    FailureThreshold.Warnings.isMetBy severity = false ↔
      FailureThreshold.Errors.isMetBy severity = false ∧ severity ≠ .Warn := by
  cases severity <;> decide

def CheckArgs.deny (args : CheckArgs) (denyWarnings : Bool) : CheckArgs := { args with denyWarnings }

/-- The arguments and the setup of the two runs differ in the threshold. -/
theorem prepare_deny (env : Env D) (args : CheckArgs) (closing : ClosingText) (deny : Bool) :
    prepare env (args.deny deny) closing =
      ((prepare env args closing).1.map fun setup => setup.withThreshold (args.deny deny).threshold,
        (prepare env args closing).2) := by
  have hfiles : ∀ config (custom : CustomLints D) closing,
      prepareFiles env (args.deny deny) config custom closing =
        ((prepareFiles env args config custom closing).1.map fun setup =>
          setup.withThreshold (args.deny deny).threshold,
          (prepareFiles env args config custom closing).2) := by
    intro config custom closing
    unfold prepareFiles
    rw [show (args.deny deny).onError = args.onError from rfl,
      show (args.deny deny).path = args.path from rfl]
    split
    · rfl
    · dsimp only
      split
      · rfl
      · split <;> rfl
  unfold prepare prepareLints
  rw [show (args.deny deny).path = args.path from rfl]
  split
  · split
    · rfl
    · dsimp only
      split
      · rfl
      · split
        · rfl
        · split
          · rfl
          · exact hfiles _ _ _
  · rfl

/-- The loop of a run does not depend on the threshold. -/
theorem run_deny (env : Env D) (args : CheckArgs) (closing : ClosingText) (deny : Bool) :
    run env (args.deny deny) closing =
      match prepare env args closing with
      | (.error e, closing) =>
        { result := .error e, closing, sent := [], recorded := [], collected := [] }
      | (.ok setup, closing) =>
        afterLoop env (setup.withThreshold (args.deny deny).threshold) closing
          (walkFiles env setup 0 setup.discovery.files Locals.new) := by
  unfold run
  rw [prepare_deny]
  generalize prepare env args closing = prepared
  obtain ⟨setup, closing'⟩ := prepared
  cases setup with
  | error e => rfl
  | ok setup =>
    dsimp only [Except.map]
    rw [walkFiles_withThreshold, show (setup.withThreshold (args.deny deny).threshold).discovery =
      setup.discovery from rfl]
    generalize walkFiles env setup 0 setup.discovery.files Locals.new = walked
    obtain ⟨ended, st⟩ := walked
    cases ended <;> rfl

/-- Without a warning the part after the loop is the same for both thresholds. -/
theorem conclude_of_no_warning (env : Env D) (setup : Setup D) (closing : ClosingText) (st : Locals)
    (h : ∀ d ∈ st.allDiagnostics, d.severity ≠ .Warn) :
    conclude env (setup.withThreshold .Warnings) closing st =
      conclude env (setup.withThreshold .Errors) closing st := by
  have hpromoted : st.allDiagnostics.map FailureThreshold.Warnings.promote =
      st.allDiagnostics.map FailureThreshold.Errors.promote :=
    List.map_congr_left fun d hd => (promote_of_not_warn (h d hd)).1
  have hverdict : CheckOutcome.fromDiagnostics
        (st.allDiagnostics.map FailureThreshold.Errors.promote) .Warnings =
      CheckOutcome.fromDiagnostics (st.allDiagnostics.map FailureThreshold.Errors.promote)
        .Errors := by
    have hsame : FailureThreshold.Errors.promote = id := funext promote_errors
    rw [hsame, List.map_id]
    have hany : (st.allDiagnostics.any fun d => FailureThreshold.Warnings.isMetBy d.severity) =
        st.allDiagnostics.any fun d => FailureThreshold.Errors.isMetBy d.severity := by
      rw [Bool.eq_iff_iff, List.any_eq_true, List.any_eq_true]
      refine exists_congr fun d => and_congr_right fun hd => ?_
      rw [(promote_of_not_warn (h d hd)).2]
    unfold CheckOutcome.fromDiagnostics
    rw [hany]
  unfold conclude
  simp only [Setup.withThreshold, hpromoted, hverdict]

/-- `--deny-warnings` changes severities and the exit code, and nothing else: not what is visited,
    what is found or what the closing text says. It reports the findings with their warnings raised
    to errors, and succeeds exactly if the run would succeed and finds no warning. A run without a
    warning is the same run. -/
theorem deny_warnings (env : Env D) (args : CheckArgs) (closing : ClosingText) :
    let strict := run env (args.deny true) closing
    let plain := run env (args.deny false) closing
    (strict.recorded = plain.recorded ∧ strict.collected = plain.collected ∧
      strict.closing = plain.closing ∧ progress strict.sent = progress plain.sent) ∧
    ((∀ d ∈ plain.collected, d.severity ≠ .Warn) → strict = plain) ∧
    ∀ code code', strict.result = .ok code → plain.result = .ok code' →
      reported plain.sent = plain.collected ∧
      reported strict.sent = plain.collected.map FailureThreshold.Warnings.promote ∧
      (code = .SUCCESS ↔ code' = .SUCCESS ∧ ∀ d ∈ plain.collected, d.severity ≠ .Warn) := by
  intro strict plain
  have hstrict : strict = _ := run_deny env args closing true
  have hplain : plain = _ := run_deny env args closing false
  generalize prepare env args closing = prepared at hstrict hplain
  obtain ⟨setup, closing'⟩ := prepared
  cases setup with
  | error e =>
    dsimp only at hstrict hplain
    rw [hstrict, hplain]
    exact ⟨⟨rfl, rfl, rfl, rfl⟩, fun _ => rfl, nofun⟩
  | ok setup =>
    dsimp only at hstrict hplain
    have hnone := reported_walkFiles env setup
    generalize walkFiles env setup 0 setup.discovery.files Locals.new = walked
      at hstrict hplain hnone
    obtain ⟨ended, st⟩ := walked
    cases ended with
    | error e =>
      rw [hstrict, hplain]
      exact ⟨⟨rfl, rfl, rfl, rfl⟩, fun _ => rfl, nofun⟩
    | ok u =>
      change strict = conclude env (setup.withThreshold .Warnings) closing' st at hstrict
      change plain = conclude env (setup.withThreshold .Errors) closing' st at hplain
      rw [hstrict, hplain]
      obtain ⟨hrecorded, hcollected, -, hprogress⟩ :=
        conclude_frame env (setup.withThreshold .Warnings) closing' st
      obtain ⟨hrecorded', hcollected', -, hprogress'⟩ :=
        conclude_frame env (setup.withThreshold .Errors) closing' st
      refine ⟨⟨?_, ?_, ?_, ?_⟩, ?_, ?_⟩
      · rw [hrecorded, hrecorded']
      · rw [hcollected, hcollected']
      · rw [conclude_closing, conclude_closing]
      · rw [hprogress, hprogress']
      · intro h
        rw [hcollected'] at h
        exact conclude_of_no_warning env setup closing' st h
      · intro code code' hcode hcode'
        obtain ⟨hreported, hverdict⟩ := conclude_ok hcode
        obtain ⟨hreported', hverdict'⟩ := conclude_ok hcode'
        have hsame : FailureThreshold.Errors.promote = id := funext promote_errors
        rw [hcollected', hreported, hreported', hnone, hverdict, hverdict']
        change reported st.sent = [] at hnone
        show [] ++ st.allDiagnostics.map FailureThreshold.Errors.promote = _ ∧ _
        refine ⟨by rw [hsame, List.map_id]; rfl, rfl, ?_⟩
        show (_ ∧ _ ∧ ∀ d ∈ st.allDiagnostics, FailureThreshold.Warnings.isMetBy d.severity = false) ↔
          (_ ∧ _ ∧ ∀ d ∈ st.allDiagnostics, FailureThreshold.Errors.isMetBy d.severity = false) ∧ _
        rw [and_assoc, and_assoc, ← forall₂_and]
        refine and_congr_right fun _ => and_congr_right fun _ => forall₂_congr fun d _ => ?_
        exact isMetBy_warnings d.severity

end Stiles
