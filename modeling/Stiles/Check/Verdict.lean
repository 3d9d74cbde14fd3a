import Stiles.Check.Loop

/-
  The verdict of a check run.

  `conclude_frame`, `conclude_ok` and `conclude_error` say what the part after the loop does.
  `run_concluded`, `run_interrupted` and `run_refused` are the three ways a run goes. `WalkedBy`
  spells out what a checked file is. `run_verdict` is about the runs that return an exit code: when
  the code is `SUCCESS`, which files were visited, and which diagnostics the report holds.
-/

namespace Stiles

open Batch (Outcome)
open Calls (argsOf found)

variable {D : DecorationTypes}

/-! ## After the loop -/

theorem send_cases (env : Env D) (output : Output) (context : String) (sent : List Output) :
    send env output context sent = (.ok (), sent ++ [output]) ∨
      ∃ e, send env output context sent = (.error e, sent) := by
  unfold send
  cases withContext context (env.present sent.length output) with
  | error e => exact Or.inr ⟨e, rfl⟩
  | ok u => exact Or.inl rfl

/-- Remedies are messages: they are no findings and no progress. -/
theorem reportRemedies_frame (env : Env D) (remedies : List String) (sent : List Output) :
    reported (reportRemedies env remedies sent).2 = reported sent ∧
      progress (reportRemedies env remedies sent).2 = progress sent := by
  induction remedies generalizing sent with
  | nil => exact ⟨rfl, rfl⟩
  | cons remedy rest ih =>
    rw [reportRemedies]
    rcases send_cases env (.message ("help: " ++ remedy)) "failed to report a remedy" sent
      with h | ⟨e, h⟩ <;> rw [h]
    · have hrest := ih (sent ++ [.message ("help: " ++ remedy)])
      simpa using hrest
    · exact ⟨rfl, rfl⟩

/-- The findings that reach the report are a prefix of the diagnostics: all of them if the loop
    ends well, a proper part if it does not. -/
theorem reportFindings_frame (env : Env D) (sources : Sources) (diagnostics : List Diagnostic)
    (sent : List Output) :
    let ran := reportFindings env sources diagnostics sent
    progress ran.2 = progress sent ∧
    ∃ rest, ∃ delivered, diagnostics = delivered ++ rest ∧
      reported ran.2 = reported sent ++ delivered ∧ (ran.1 = .ok () ↔ rest = []) := by
  induction diagnostics generalizing sent with
  | nil => exact ⟨rfl, [], [], rfl, by simp [reportFindings], by simp [reportFindings]⟩
  | cons d ds ih =>
    rw [reportFindings]
    cases Finding.new env.renderToString d sources with
    | error e => exact ⟨rfl, d :: ds, [], rfl, by simp, by simp⟩
    | ok finding =>
      dsimp only
      rcases send_cases env (.artifact finding d) "failed to report a diagnostic" sent
        with h | ⟨e, h⟩ <;> rw [h]
      · obtain ⟨hprogress, rest, delivered, hsplit, hreported, hok⟩ :=
          ih (sent ++ [.artifact finding d])
        exact ⟨by simpa using hprogress, rest, d :: delivered, by rw [hsplit]; rfl,
          by simpa using hreported, hok⟩
      · exact ⟨rfl, d :: ds, [], rfl, by simp, by simp⟩

/-- The part after the loop keeps what the loop recorded, and names every failure. -/
theorem conclude_frame (env : Env D) (setup : Setup D) (closing : ClosingText) (st : Locals) :
    let ran := conclude env setup closing st
    ran.recorded = st.failures ∧ ran.collected = st.allDiagnostics ∧
      ran.closing.failures = closing.failures ++ st.failures ∧
      progress ran.sent = progress st.sent := by
  have hfailures : (closing.extend (st.failures.map .failure)).failures =
      closing.failures ++ st.failures := by
    rw [ClosingText.failures_extend, List.filterMap_map]
    congr 1
    exact List.filterMap_some
  have hremedies := reportRemedies_frame env st.remedies.remedies st.sent
  unfold conclude
  generalize reportRemedies env st.remedies.remedies st.sent = remedied at hremedies
  obtain ⟨remedy, sent⟩ := remedied
  cases remedy with
  | error e => exact ⟨rfl, rfl, hfailures, hremedies.2⟩
  | ok u =>
    have hfindings := reportFindings_frame env st.sources
      (st.allDiagnostics.map setup.threshold.promote) sent
    dsimp only at hremedies ⊢
    generalize reportFindings env st.sources (st.allDiagnostics.map setup.threshold.promote) sent =
      found at hfindings
    obtain ⟨finding, sent'⟩ := found
    have hprogress := hfindings.1.trans hremedies.2
    cases finding with
    | error e => exact ⟨rfl, rfl, hfailures, hprogress⟩
    | ok v => dsimp only; split <;> exact ⟨rfl, rfl, hfailures, hprogress⟩

/-- A run whose part after the loop ends well reports every diagnostic, and succeeds when nothing
    failed. -/
theorem conclude_ok {env : Env D} {setup : Setup D} {closing : ClosingText} {st : Locals}
    {code : ExitCode} (h : (conclude env setup closing st).result = .ok code) :
    reported (conclude env setup closing st).sent =
        reported st.sent ++ st.allDiagnostics.map setup.threshold.promote ∧
      (code = .SUCCESS ↔ st.failures = [] ∧ setup.outcome = .Success ∧
        ∀ d ∈ st.allDiagnostics, setup.threshold.isMetBy d.severity = false) := by
  have hremedies := reportRemedies_frame env st.remedies.remedies st.sent
  unfold conclude at h ⊢
  generalize reportRemedies env st.remedies.remedies st.sent = remedied at h hremedies
  obtain ⟨remedy, sent⟩ := remedied
  cases remedy with
  | error e => simp at h
  | ok u =>
    obtain ⟨_, rest, delivered, hsplit, hreported, hok⟩ := reportFindings_frame env st.sources
      (st.allDiagnostics.map setup.threshold.promote) sent
    dsimp only at h hremedies ⊢
    generalize reportFindings env st.sources (st.allDiagnostics.map setup.threshold.promote) sent =
      found at h hreported hok
    obtain ⟨finding, sent'⟩ := found
    cases finding with
    | error e => simp at h
    | ok v =>
      have hrest : rest = [] := hok.mp rfl
      rw [hrest, List.append_nil] at hsplit
      have hall : reported sent' = reported st.sent ++ st.allDiagnostics.map setup.threshold.promote
        := by rw [hsplit, ← hremedies.1]; exact hreported
      have hmet : (∀ d ∈ st.allDiagnostics.map setup.threshold.promote,
          setup.threshold.isMetBy d.severity = false) ↔
          ∀ d ∈ st.allDiagnostics, setup.threshold.isMetBy d.severity = false := by
        simp [FailureThreshold.isMetBy_promote]
      have houtcome : (if st.failures.isEmpty then setup.outcome else CheckOutcome.Failure) =
          .Success ↔ st.failures = [] ∧ setup.outcome = .Success := by
        cases st.failures <;> simp
      have hsuccess : (if st.failures.isEmpty then setup.outcome else CheckOutcome.Failure).combine
          (CheckOutcome.fromDiagnostics (st.allDiagnostics.map setup.threshold.promote)
            setup.threshold) = .Success ↔ st.failures = [] ∧ setup.outcome = .Success ∧
          ∀ d ∈ st.allDiagnostics, setup.threshold.isMetBy d.severity = false := by
        rw [CheckOutcome.combine_eq_success, CheckOutcome.fromDiagnostics_eq_success, houtcome,
          hmet, and_assoc]
      dsimp only at h ⊢
      split at h <;> rename_i heq <;> simp only [Except.ok.injEq] at h <;> subst h
      · rw [heq] at hsuccess
        exact ⟨hall, by simpa using hsuccess⟩
      · rw [heq] at hsuccess
        exact ⟨hall, by simpa using hsuccess⟩

/-- A run whose part after the loop ends with an error delivers a part of its diagnostics, and not
    all of them if there are any. -/
theorem conclude_error {env : Env D} {setup : Setup D} {closing : ClosingText} {st : Locals}
    {e : Anyhow} (h : (conclude env setup closing st).result = .error e) :
    ∃ delivered rest, st.allDiagnostics.map setup.threshold.promote = delivered ++ rest ∧
      reported (conclude env setup closing st).sent = reported st.sent ++ delivered ∧
      (rest = [] → delivered = []) := by
  have hremedies := reportRemedies_frame env st.remedies.remedies st.sent
  unfold conclude at h ⊢
  generalize reportRemedies env st.remedies.remedies st.sent = remedied at h hremedies
  obtain ⟨remedy, sent⟩ := remedied
  cases remedy with
  | error x => exact ⟨[], _, rfl, by simpa using hremedies.1, by simp⟩
  | ok u =>
    obtain ⟨_, rest, delivered, hsplit, hreported, hok⟩ := reportFindings_frame env st.sources
      (st.allDiagnostics.map setup.threshold.promote) sent
    dsimp only at h hremedies ⊢
    generalize reportFindings env st.sources (st.allDiagnostics.map setup.threshold.promote) sent =
      found at h hreported hok
    obtain ⟨finding, sent'⟩ := found
    cases finding with
    | error x =>
      refine ⟨delivered, rest, hsplit, ?_, fun hrest => ?_⟩
      · rw [← hremedies.1]
        exact hreported
      · exact absurd (hok.mpr hrest) (by simp)
    | ok v =>
      dsimp only at h
      split at h <;> simp at h

/-! ## The whole run -/

/-- A run whose part before the loop succeeds and which no file interrupts: the loop settles the
    outcomes as a batch, and the part after the loop has the last word. -/
theorem run_concluded {env : Env D} {args : CheckArgs} {closing : ClosingText} {setup : Setup D}
    (hprepare : (prepare env args closing).1 = .ok setup)
    (hbatch : (Batch.settle (setup.recovery = .Abort) (fileOutcomes env setup)).2 = none) :
    ∃ st, Tracks env
        (setup.discovery.files.take
          (Batch.settle (setup.recovery = .Abort) (fileOutcomes env setup)).1.length)
        (Batch.settle (setup.recovery = .Abort) (fileOutcomes env setup)).1 st ∧
      run env args closing = conclude env setup (prepare env args closing).2 st := by
  have hloop := walkFiles_settles setup setup.discovery.files (tracks_new env)
  change LoopEnds env [] [] _ (Batch.settle _ (fileOutcomes env setup))
    (walkFiles env setup 0 _ _) at hloop
  unfold LoopEnds at hloop
  rw [hbatch] at hloop
  obtain ⟨hok, htracks⟩ := hloop
  refine ⟨_, by simpa using htracks, ?_⟩
  unfold run
  generalize prepare env args closing = prepared at hprepare ⊢
  obtain ⟨prepared, closing'⟩ := prepared
  dsimp only at hprepare
  subst hprepare
  dsimp only
  generalize walkFiles env setup 0 setup.discovery.files Locals.new = walked at hok ⊢
  obtain ⟨walked, st⟩ := walked
  dsimp only at hok
  subst hok
  rfl

/-- A run that a file interrupts: it returns the error of the file, and what the loop recorded and
    collected stays behind. -/
theorem run_interrupted {env : Env D} {args : CheckArgs} {closing : ClosingText}
    {setup : Setup D} {e : Anyhow} (hprepare : (prepare env args closing).1 = .ok setup)
    (hbatch : (Batch.settle (setup.recovery = .Abort) (fileOutcomes env setup)).2 = some e) :
    let ran := run env args closing
    let settled := (Batch.settle (setup.recovery = .Abort) (fileOutcomes env setup)).1
    ran.result = .error e ∧ ran.recorded = failuresOf settled ∧
      ran.collected = diagnosticsOf settled ∧ ran.closing.failures = closing.failures ∧
      reported ran.sent = [] := by
  have hloop := walkFiles_settles setup setup.discovery.files (tracks_new env)
  have hclosing := prepare_failures env args closing
  change LoopEnds env [] [] _ (Batch.settle _ (fileOutcomes env setup))
    (walkFiles env setup 0 _ _) at hloop
  unfold LoopEnds at hloop
  rw [hbatch] at hloop
  obtain ⟨herr, hinterrupted⟩ := hloop
  unfold run
  generalize prepare env args closing = prepared at hprepare hclosing ⊢
  obtain ⟨prepared, closing'⟩ := prepared
  dsimp only at hprepare
  subst hprepare
  dsimp only
  generalize walkFiles env setup 0 setup.discovery.files Locals.new = walked at herr hinterrupted ⊢
  obtain ⟨walked, st⟩ := walked
  dsimp only at herr
  subst herr
  exact ⟨rfl, hinterrupted.failures, hinterrupted.diagnostics, hclosing, hinterrupted.reported⟩

/-- A run that cannot start has recorded and collected nothing. -/
theorem run_refused {env : Env D} {args : CheckArgs} {closing : ClosingText} {e : Anyhow}
    (hprepare : (prepare env args closing).1 = .error e) :
    let ran := run env args closing
    ran.result = .error e ∧ ran.recorded = [] ∧ ran.collected = [] ∧ ran.sent = [] := by
  unfold run
  generalize prepare env args closing = prepared at hprepare ⊢
  obtain ⟨prepared, closing'⟩ := prepared
  dsimp only at hprepare
  subst hprepare
  exact ⟨rfl, rfl, rfl, rfl⟩

/-! ## What a checked file is -/

/-- File number `k` was read and parsed, a provider covers it, every lint of its language walked
    all of its tree, and `checked` holds the diagnostics of the walk that the filter admits. -/
def WalkedBy (env : Env D) (setup : Setup D) (k : Nat) (file : FilePath)
    (checked : CheckedFile) : Prop :=
  ∃ grammar passes pipeline parsed,
    env.readToString k file = .ok checked.source ∧ Grammar.of file = some grammar ∧
    setup.customLints.instantiate setup.config.options k = .ok passes ∧
    grammar.pipeline env.setLanguage = .ok pipeline ∧
    pipeline.parse checked.source = some parsed ∧
    let providers := setup.providers file grammar.language
    let bare : DecoratedTree D := DecoratedTree.new parsed pipeline.language checked.source file
    let tree := mergedTree bare (providers.filterMap (coveringMap bare))
    let walked := walkLints tree passes
    (∃ p ∈ providers, ∃ decorations, p.decorate bare = .ok (.Covered decorations)) ∧
      (runOnSource pipeline checked.source file providers passes).walked = some (tree, walked) ∧
      (∀ (i : Nat) (lint : Lint D), passes[i]? = some lint → lint.language = grammar.language →
        argsOf i walked.calls = tree.reached) ∧
      walked.result = .ok (found walked.calls) ∧
      checked.diagnostics =
        (found walked.calls).filter fun d => setup.config.rules.admits d.ruleId

theorem fileOutcome_done {env : Env D} {setup : Setup D} {k : Nat} {file : FilePath}
    {checked : CheckedFile} (h : fileOutcome env setup k file = .done checked) :
    WalkedBy env setup k file checked := by
  unfold fileOutcome at h
  split at h
  · cases h
  · split at h
    · cases h
    · rename_i source hread
      unfold sourceOutcome at h
      split at h
      · cases h
      · rename_i passes hpasses
        split at h
        · cases h
        · rename_i grammar hgrammar
          split at h
          · cases h
          · rename_i pipeline hpipeline
            cases hresult : (runOnSource pipeline source file
                (setup.providers file grammar.language) passes).result with
            | error error => simp [hresult, resultOutcome] at h
            | ok ds =>
              rw [hresult, resultOutcome, Outcome.done.injEq] at h
              subst h
              obtain ⟨parsed, hparse, hcovered, hwalked, hwalk⟩ := runOnSource_ok hresult
              obtain ⟨hstop, hds⟩ := walkLints_ok_iff.mp hwalk
              have hbuilt := withContext_eq_ok.mp hpipeline
              refine ⟨grammar, passes, pipeline, parsed, hread, hgrammar,
                withContext_eq_ok.mp hpasses, hbuilt, hparse, hcovered, hwalked, ?_,
                by rw [← hds]; exact hwalk, by rw [← hds]⟩
              intro i lint hlint hlang
              rw [argsOf_walkLints hstop, if_pos]
              have hlanguage := hlang.trans (Grammar.pipeline_language hbuilt).symm
              exact mem_takingPart.mpr ⟨lint, hlint, hlanguage⟩

/-! ## The verdict -/

/-- The progress line of each of `files`. -/
def checkingLines (files : List FilePath) : List String :=
  files.map fun file => "checking " ++ file.text

theorem flag_abort {args : CheckArgs} {setup : Setup D} (hrecovery : setup.recovery = args.recovery)
    (h : args.keepGoing = false) : decide (setup.recovery = .Abort) = true := by
  simp [hrecovery, CheckArgs.recovery, h]

theorem flag_keepGoing {args : CheckArgs} {setup : Setup D}
    (hrecovery : setup.recovery = args.recovery) (h : args.keepGoing = true) :
    decide (setup.recovery = .Abort) = false := by
  simp [hrecovery, CheckArgs.recovery, h]

/-- A run that returns an exit code settled its files as a batch that nothing interrupted. The code
    is `SUCCESS` exactly when nothing failed, and the report holds the diagnostics of the settled
    files. -/
theorem run_settled {env : Env D} {args : CheckArgs} {closing : ClosingText} {code : ExitCode}
    (hdone : (run env args closing).result = .ok code) :
    ∃ setup, (prepare env args closing).1 = .ok setup ∧
      let ran := run env args closing
      let batch := Batch.settle (setup.recovery = .Abort) (fileOutcomes env setup)
      batch.2 = none ∧
      progress ran.sent = checkingLines (setup.discovery.files.take batch.1.length) ∧
      reported ran.sent = (diagnosticsOf batch.1).map setup.threshold.promote ∧
      (code = .SUCCESS ↔ failuresOf batch.1 = [] ∧ setup.discovery.errors = [] ∧
        ∀ d ∈ diagnosticsOf batch.1, setup.threshold.isMetBy d.severity = false) := by
  cases hprepare : (prepare env args closing).1 with
  | error e =>
    rw [(run_refused hprepare).1] at hdone
    cases hdone
  | ok setup =>
    refine ⟨setup, rfl, ?_⟩
    cases hbatch : (Batch.settle (setup.recovery = .Abort) (fileOutcomes env setup)).2 with
    | some e =>
      rw [(run_interrupted hprepare hbatch).1] at hdone
      cases hdone
    | none =>
      obtain ⟨st, htracks, hrun⟩ := run_concluded hprepare hbatch
      rw [hrun] at hdone ⊢
      obtain ⟨hreported, hcode⟩ := conclude_ok hdone
      have hframe := conclude_frame env setup (prepare env args closing).2 st
      refine ⟨hbatch, ?_, ?_, ?_⟩
      · rw [hframe.2.2.2, htracks.sent, progress_checking]
        rfl
      · rw [hreported, htracks.sent, reported_checking, htracks.diagnostics, List.nil_append]
      · rw [hcode, htracks.failures, htracks.diagnostics, (prepare_ok hprepare).outcome]

/-- A discovered file whose outcome is done was walked. -/
theorem fileOutcomes_walked {env : Env D} {setup : Setup D} {k : Nat} {file : FilePath}
    {checked : CheckedFile} (hfile : setup.discovery.files[k]? = some file)
    (hout : (fileOutcomes env setup)[k]? = some (.done checked)) :
    WalkedBy env setup k file checked := by
  rw [fileOutcomes_getElem?, hfile, Option.map_some, Option.some.injEq] at hout
  exact fileOutcome_done hout

/-- A batch that ends well settled no failure and nothing at the threshold exactly when every file
    is done with diagnostics below it. -/
theorem settled_clean_iff {stop : Bool} {outcomes : List FileOutcome}
    (threshold : FailureThreshold) (hbatch : (Batch.settle stop outcomes).2 = none) :
    (failuresOf (Batch.settle stop outcomes).1 = [] ∧
      ∀ d ∈ diagnosticsOf (Batch.settle stop outcomes).1, threshold.isMetBy d.severity = false) ↔
    ∀ o ∈ outcomes, ∃ checked, o = .done checked ∧
      ∀ d ∈ checked.diagnostics, threshold.isMetBy d.severity = false := by
  constructor
  · rintro ⟨hfailures, hmet⟩ o ho
    have hdone := Batch.done_of_no_failure hbatch (List.map_eq_nil_iff.mp hfailures)
    rw [Batch.settle_all_done stop hdone] at hmet
    obtain ⟨checked, rfl⟩ := hdone o ho
    refine ⟨checked, rfl, fun d hd => ?_⟩
    exact hmet d (List.mem_flatMap.mpr ⟨checked, Batch.mem_dones.mpr ho, hd⟩)
  · intro hout
    have hdone : ∀ o ∈ outcomes, ∃ checked, o = .done checked :=
      fun o ho => ⟨_, (hout o ho).choose_spec.1⟩
    rw [Batch.settle_all_done stop hdone]
    refine ⟨List.map_eq_nil_iff.mpr (Batch.failures_of_done hdone), fun d hd => ?_⟩
    obtain ⟨checked, hchecked, hd⟩ := List.mem_flatMap.mp hd
    obtain ⟨checked', heq, hmet⟩ := hout _ (Batch.mem_dones.mp hchecked)
    cases heq
    exact hmet d hd

/-- A keep-going run settles every file, and so does a run whose files are all done. -/
theorem settled_all {args : CheckArgs} {setup : Setup D} {outcomes : List FileOutcome}
    (hrecovery : setup.recovery = args.recovery)
    (hbatch : (Batch.settle (setup.recovery = .Abort) outcomes).2 = none)
    (h : args.keepGoing = true ∨ ∀ o ∈ outcomes, ∃ checked, o = .done checked) :
    (Batch.settle (setup.recovery = .Abort) outcomes).1 = outcomes := by
  rcases h with hkeep | hdone
  · rw [flag_keepGoing hrecovery hkeep] at hbatch ⊢
    have hkeepGoing := Batch.settle_keepGoing outcomes
    rw [hbatch] at hkeepGoing
    exact hkeepGoing.1
  · rw [Batch.settle_all_done _ hdone]

/-- What an exit code says about the files. `SUCCESS` means no discovery error, no failed file and
    no admitted diagnostic that meets the threshold, and then every file was read, covered and
    walked. An abort run stops at the first failed file and reports what came before it; a
    keep-going run visits every file and reports what the files that did not fail gave. A report
    changes nothing of a diagnostic but its severity. -/
theorem run_verdict (env : Env D) (args : CheckArgs) (closing : ClosingText) (code : ExitCode)
    (hdone : (run env args closing).result = .ok code) :
    ∃ setup, (prepare env args closing).1 = .ok setup ∧ setup.threshold = args.threshold ∧
      let ran := run env args closing
      let files := setup.discovery.files
      let outcomes := fileOutcomes env setup
      (code = .SUCCESS ↔ setup.discovery.errors = [] ∧
        ∀ o ∈ outcomes, ∃ checked, o = .done checked ∧
          ∀ d ∈ checked.diagnostics, setup.threshold.isMetBy d.severity = false) ∧
      (code = .SUCCESS → progress ran.sent = checkingLines files ∧
        ∀ k file, files[k]? = some file →
          ∃ checked, outcomes[k]? = some (.done checked) ∧ WalkedBy env setup k file checked) ∧
      (args.keepGoing = false →
        ∀ before f after, outcomes = before ++ .failed f :: after →
          (∀ o ∈ before, ∃ checked, o = .done checked) →
          progress ran.sent = checkingLines (files.take (before.length + 1)) ∧
          reported ran.sent = (diagnosticsOf before).map setup.threshold.promote) ∧
      (args.keepGoing = true ∨ (∀ o ∈ outcomes, ∃ checked, o = .done checked) →
        progress ran.sent = checkingLines files ∧
        reported ran.sent = (diagnosticsOf outcomes).map setup.threshold.promote) ∧
      (∀ k file checked, files[k]? = some file → outcomes[k]? = some (.done checked) →
        WalkedBy env setup k file checked) ∧
      ∀ d, setup.threshold.promote d =
        d.withSeverity (if setup.threshold.isMetBy d.severity then .Error else d.severity) := by
  obtain ⟨setup, hprepare, hbatch, hprogress, hreported, hcode⟩ := run_settled hdone
  refine ⟨setup, hprepare, (prepare_ok hprepare).threshold, ?_⟩
  intro ran files outcomes
  have hrecovery := (prepare_ok hprepare).recovery
  have hlength : outcomes.length = files.length := outcomesFrom_length _ _ _ _
  have hverdict : code = .SUCCESS ↔ setup.discovery.errors = [] ∧
      ∀ o ∈ outcomes, ∃ checked, o = .done checked ∧
        ∀ d ∈ checked.diagnostics, setup.threshold.isMetBy d.severity = false := by
    rw [hcode, ← settled_clean_iff setup.threshold hbatch]
    exact and_left_comm
  have hcomplete : args.keepGoing = true ∨ (∀ o ∈ outcomes, ∃ checked, o = .done checked) →
      progress ran.sent = checkingLines files ∧
        reported ran.sent = (diagnosticsOf outcomes).map setup.threshold.promote := by
    intro h
    rw [settled_all hrecovery hbatch h] at hprogress hreported
    change progress ran.sent = checkingLines (files.take outcomes.length) at hprogress
    rw [hlength, List.take_length] at hprogress
    exact ⟨hprogress, hreported⟩
  refine ⟨hverdict, ?_, ?_, hcomplete, fun k file checked => fileOutcomes_walked,
    fun d => FailureThreshold.promote_eq _ d⟩
  · intro hsuccess
    have hout := (hverdict.mp hsuccess).2
    refine ⟨(hcomplete (Or.inr fun o ho => ⟨_, (hout o ho).choose_spec.1⟩)).1, ?_⟩
    intro k file hfile
    have hk : outcomes[k]? = some (fileOutcome env setup k file) := by
      simp only [outcomes, fileOutcomes_getElem?]
      rw [show setup.discovery.files[k]? = some file from hfile, Option.map_some]
    obtain ⟨checked, hchecked, _⟩ := hout _ (List.mem_of_getElem? hk)
    rw [hchecked] at hk
    exact ⟨checked, hk, fileOutcomes_walked hfile hk⟩
  · intro habort before f after hsplit hbefore
    have hsettled : Batch.settle (setup.recovery = .Abort) (fileOutcomes env setup) =
        (before ++ [.failed f], none) := by
      rw [flag_abort hrecovery habort]
      change Batch.settle true outcomes = _
      rw [hsplit]
      exact Batch.settle_stop_at hbefore
    rw [hsettled] at hprogress hreported
    refine ⟨by simpa using hprogress, ?_⟩
    simpa [diagnosticsOf] using hreported

/-- A project of Rust files with one plugin that exports one lint. Everything the run asks of the
    world succeeds but what `read` and `factory` refuse. -/
def projectEnv (files : List FilePath) (read : Nat → FilePath → Except IoError String)
    (factory : Nat → Except Panic (LintPass noteTypes)) : Env noteTypes where
  pathExists _ := true
  loadConfig _ := .ok { root := ⟨"/project"⟩, ignore := [], rules := .All, options := ⟨[]⟩ }
  libraries _ := (.ok [{ path := ⟨"liblints.so"⟩
                         exports := .ok [{ factory, language := .Rust,
                                           rules := [⟨"lint.number"⟩] }] }], [])
  discover _ _ _ := .ok { files, errors := [] }
  loadProviders _ _ := .ok fun _ _ => [notingProvider "covered"]
  setLanguage _ := .ok statementPipeline.parse
  readToString := read
  renderToString _ _ := .ok ""
  present _ _ := .ok ()
  fromError _ := { code := .FAILURE, text := none }

/-- A pass for TypeScript that warns of each identifier. -/
def namingPass : LintPass noteTypes where
  State := Unit
  state := ()
  languageOf _ := .TypeScript
  configureOf _ _ := (.ok (), ())
  checkNodeOf _ node :=
    (.ok (if node.kind = "identifier" then
      [Diagnostic.new ⟨"lint.name"⟩ .Warn node.kind node.span] else []), ())

def mixedLints : List (ExportedLint noteTypes) :=
  [{ factory := fun _ => .ok (numberingPass 0), language := .Rust, rules := [⟨"lint.number"⟩] },
   { factory := fun _ => .ok namingPass, language := .TypeScript, rules := [⟨"lint.name"⟩] }]

/-- A project of two Rust files and one TypeScript file, with a lint for each language. -/
def mixedEnv : Env noteTypes :=
  { projectEnv [⟨"src/app.ts"⟩, ⟨"src/lib.rs"⟩, ⟨"src/main.rs"⟩] (fun _ _ => .ok "abc;")
      (fun _ => .ok (numberingPass 0)) with
    libraries := fun _ => (.ok [{ path := ⟨"liblints.so"⟩, exports := .ok mixedLints }], []) }

/-- The three files are visited and the warnings of both lints reported. The run succeeds, and it
    fails if warnings are denied. -/
theorem run_verdict_warnings :
    let ran := run mixedEnv ⟨⟨"."⟩, false, false⟩ .default
    progress ran.sent =
        ["checking src/app.ts", "checking src/lib.rs", "checking src/main.rs"] ∧
      (reported ran.sent).map (fun d => (d.ruleId.asStr, d.span.file.text)) =
        [("lint.name", "src/app.ts"), ("lint.number", "src/lib.rs"), ("lint.number", "src/lib.rs"),
         ("lint.number", "src/main.rs"), ("lint.number", "src/main.rs")] ∧
      (run mixedEnv ⟨⟨"."⟩, false, true⟩ .default).result = .ok .FAILURE := by
  intro ran
  obtain ⟨setup, hprepare, -, hcode, hvisited, -, hcomplete, -⟩ :=
    run_verdict mixedEnv ⟨⟨"."⟩, false, false⟩ .default .SUCCESS (by decide)
  cases hprepare
  refine ⟨(hvisited rfl).1, ?_, by decide⟩
  have hdone := (hcode.mp rfl).2
  have hreported := (hcomplete (Or.inr fun o ho => (hdone o ho).imp fun _ h => h.1)).2
  rw [show reported ran.sent = _ from hreported]
  decide

end Stiles
