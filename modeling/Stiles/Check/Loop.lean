import Stiles.General.Batch
import Stiles.Check.Run

/-
  The loop of a check run as a batch of files.

  `fileOutcome` is what one file comes to, whatever the other files did: checked, failed, or an
  error of the whole run. `Tracks` says what the locals of the loop hold after the files it
  settled. `checkFile_settles` is the step of the loop and `walkFiles_settles` the whole loop: it
  settles what `Batch.settle` says.
-/

namespace Stiles

open Batch (Outcome)

variable {D : DecorationTypes}

/-- A file that every lint of its language walked, with the diagnostics the filter admits. -/
structure CheckedFile where
  file : FilePath
  source : String
  diagnostics : List Diagnostic

/-- A file that failed, with the gaps of the providers if that is why. -/
structure FailedFile where
  failure : FileFailure
  uncovered : Option UncoveredFile

def RunPipelineError.uncovered? : RunPipelineError → Option UncoveredFile
  | .Uncovered source => some source
  | _ => none

abbrev FileOutcome := Outcome CheckedFile FailedFile Anyhow

/-- The progress line of a file. -/
def checking (file : FilePath) : Output := .detail ("checking " ++ file.text)

def resultOutcome (setup : Setup D) (file : FilePath) (source : String) :
    Except RunPipelineError (List Diagnostic) → FileOutcome
  | .ok diagnostics =>
    .done ⟨file, source, diagnostics.filter fun d => setup.config.rules.admits d.ruleId⟩
  | .error error => .failed ⟨⟨file, error.anyhow⟩, error.uncovered?⟩

def sourceOutcome (env : Env D) (setup : Setup D) (k : Nat) (file : FilePath) (source : String) :
    FileOutcome :=
  match withContext "failed to configure the custom lints"
    (setup.customLints.instantiate setup.config.options k) with
  | .error e => .fatal e
  | .ok passes =>
    match Grammar.of file with
    | none => .failed ⟨⟨file, .msg ("stiles has no grammar for " ++ file.text)⟩, none⟩
    | some grammar =>
      match withContext "failed to initialize pipeline" (grammar.pipeline env.setLanguage) with
      | .error e => .fatal e
      | .ok pipeline =>
        resultOutcome setup file source
          (runOnSource pipeline source file (setup.providers file grammar.language) passes).result

/-- What file number `k` comes to. -/
def fileOutcome (env : Env D) (setup : Setup D) (k : Nat) (file : FilePath) : FileOutcome :=
  match withContext "failed to report progress" (env.present k (checking file)) with
  | .error e => .fatal e
  | .ok () =>
    match env.readToString k file with
    | .error e => .failed ⟨⟨file, ⟨e.message, []⟩⟩, none⟩
    | .ok source => sourceOutcome env setup k file source

/-- The outcomes of a list of files, the first of which has number `k`. -/
def outcomesFrom (env : Env D) (setup : Setup D) : Nat → List FilePath → List FileOutcome
  | _, [] => []
  | k, file :: rest => fileOutcome env setup k file :: outcomesFrom env setup (k + 1) rest

/-- The outcomes of the files of a run. -/
def fileOutcomes (env : Env D) (setup : Setup D) : List FileOutcome :=
  outcomesFrom env setup 0 setup.discovery.files

theorem outcomesFrom_length (env : Env D) (setup : Setup D) (k : Nat) (files : List FilePath) :
    (outcomesFrom env setup k files).length = files.length := by
  induction files generalizing k with
  | nil => rfl
  | cons file rest ih => simp [outcomesFrom, ih]

theorem outcomesFrom_getElem? (env : Env D) (setup : Setup D) (k : Nat) (files : List FilePath)
    (i : Nat) :
    (outcomesFrom env setup k files)[i]? = files[i]?.map (fileOutcome env setup (k + i)) := by
  induction files generalizing k i with
  | nil => rfl
  | cons file rest ih =>
    cases i with
    | zero => rfl
    | succ i =>
      rw [outcomesFrom, List.getElem?_cons_succ, List.getElem?_cons_succ, ih]
      congr 2
      omega

theorem fileOutcomes_getElem? (env : Env D) (setup : Setup D) (i : Nat) :
    (fileOutcomes env setup)[i]? = setup.discovery.files[i]?.map (fileOutcome env setup i) := by
  unfold fileOutcomes
  rw [outcomesFrom_getElem?, Nat.zero_add]

/-! ## What the locals hold -/

/-- The failures that settled files leave. -/
def failuresOf (settled : List FileOutcome) : List FileFailure :=
  (Batch.failures settled).map FailedFile.failure

/-- The admitted diagnostics that settled files leave. -/
def diagnosticsOf (settled : List FileOutcome) : List Diagnostic :=
  (Batch.dones settled).flatMap CheckedFile.diagnostics

/-- The remedies that settled files leave. -/
def remediesOf (settled : List FileOutcome) : CoverageRemedies :=
  (Batch.failures settled).foldl (fun remedies f => f.uncovered.elim remedies remedies.record)
    .default

/-- The source of a file is kept if the file has a diagnostic. -/
def keepSource (sources : Sources) (checked : CheckedFile) : Sources :=
  if checked.diagnostics.isEmpty then sources
  else sources.insert checked.file checked.source

def sourcesOf (settled : List FileOutcome) : Sources :=
  (Batch.dones settled).foldl keepSource .empty

/-- The locals after the files `visited` came to `settled`. -/
structure Tracks (env : Env D) (visited : List FilePath) (settled : List FileOutcome)
    (st : Locals) : Prop where
  failures : st.failures = failuresOf settled
  diagnostics : st.allDiagnostics = diagnosticsOf settled
  remedies : st.remedies = remediesOf settled
  sources : st.sources = sourcesOf settled
  sent : st.sent = visited.map checking
  pipelines : ∀ grammar pipeline, st.pipelines grammar = some pipeline →
    grammar.pipeline env.setLanguage = .ok pipeline

theorem tracks_new (env : Env D) : Tracks env [] [] Locals.new where
  failures := rfl
  diagnostics := rfl
  remedies := rfl
  sources := rfl
  sent := rfl
  pipelines := by simp [Locals.new]

/-- How the loop goes on after a failed file. -/
def ErrorRecovery.flow : ErrorRecovery → Flow
  | .Abort => .stop
  | .Continue => .next

/-- Recording a failure is the same in both modes; they differ in how the loop goes on. -/
theorem record_eq (st : Locals) (recovery : ErrorRecovery) (file : FilePath) (error : Anyhow) :
    st.record recovery file error =
      (recovery.flow, { st with failures := st.failures ++ [{ file, error }] }) := by
  cases recovery <;> rfl

theorem reported_checking (visited : List FilePath) : reported (visited.map checking) = [] := by
  induction visited with
  | nil => rfl
  | cons file rest ih => exact ih

theorem progress_checking (visited : List FilePath) :
    progress (visited.map checking) = visited.map fun file => "checking " ++ file.text := by
  induction visited with
  | nil => rfl
  | cons file rest ih => exact congrArg _ ih

/-- What an error of the run leaves in the locals: what the files before it left. -/
structure Interrupted (settled : List FileOutcome) (st : Locals) : Prop where
  failures : st.failures = failuresOf settled
  diagnostics : st.allDiagnostics = diagnosticsOf settled
  reported : reported st.sent = []

/-- The pipeline of a grammar does not depend on what the locals cached. -/
theorem pipeline_eq {env : Env D} {visited : List FilePath} {settled : List FileOutcome}
    {st : Locals} (h : Tracks env visited settled st) (grammar : Grammar) :
    (st.pipeline env grammar).1 =
        withContext "failed to initialize pipeline" (grammar.pipeline env.setLanguage) ∧
      Tracks env visited settled (st.pipeline env grammar).2 := by
  unfold Locals.pipeline
  cases hcached : st.pipelines grammar with
  | some pipeline => exact ⟨by rw [h.pipelines grammar pipeline hcached]; rfl, h⟩
  | none =>
    cases hbuilt : withContext "failed to initialize pipeline"
      (grammar.pipeline env.setLanguage) with
    | error e => exact ⟨rfl, h⟩
    | ok pipeline =>
      refine ⟨rfl, { h with pipelines := ?_ }⟩
      intro g p hg
      by_cases heq : g = grammar
      · subst heq
        simp only [Function.update_self, Option.some.injEq] at hg
        exact hg ▸ withContext_eq_ok.mp hbuilt
      · exact h.pipelines g p (by simpa [Function.update_of_ne heq] using hg)

/-- What the body of the loop does with a file that comes to `outcome`. -/
def Settles (env : Env D) (setup : Setup D) (visited : List FilePath)
    (settled : List FileOutcome) (outcome : FileOutcome) (ran : Flow × Locals) : Prop :=
  match outcome with
  | .done checked => ran.1 = .next ∧ Tracks env visited (settled ++ [.done checked]) ran.2
  | .failed f => ran.1 = setup.recovery.flow ∧ Tracks env visited (settled ++ [.failed f]) ran.2
  | .fatal e => ran.1 = .fail e ∧ Interrupted settled ran.2

/-- A failure is recorded beside what the locals hold already. -/
theorem settles_record {env : Env D} (setup : Setup D) {visited : List FilePath}
    {settled : List FileOutcome} {st : Locals} (h : Tracks env visited settled st)
    (file : FilePath) (error : Anyhow) (uncovered : Option UncoveredFile) :
    Settles env setup visited settled (.failed ⟨⟨file, error⟩, uncovered⟩)
      ({ st with remedies := uncovered.elim st.remedies st.remedies.record }.record setup.recovery
        file error) := by
  rw [record_eq]
  refine ⟨rfl, { h with failures := ?_, diagnostics := ?_, remedies := ?_, sources := ?_ }⟩
  · simp [h.failures, failuresOf]
  · simp [h.diagnostics, diagnosticsOf]
  · simp [h.remedies, remediesOf]
  · simp [h.sources, sourcesOf]

theorem interrupted_of_tracks {env : Env D} {visited : List FilePath}
    {settled : List FileOutcome} {st : Locals} (h : Tracks env visited settled st) :
    Interrupted settled st :=
  ⟨h.failures, h.diagnostics, by rw [h.sent, reported_checking]⟩

/-- A file without an admitted diagnostic is kept like any other: it adds none. -/
theorem keepResult_ok (setup : Setup D) (file : FilePath) (source : String)
    (diagnostics : List Diagnostic) (st : Locals) :
    let admitted := diagnostics.filter fun d => setup.config.rules.admits d.ruleId
    keepResult setup file source (.ok diagnostics) st =
      (.next, { st with
        sources := keepSource st.sources ⟨file, source, admitted⟩
        allDiagnostics := st.allDiagnostics ++ admitted }) := by
  simp only [keepResult, keepSource]
  generalize diagnostics.filter (fun d => setup.config.rules.admits d.ruleId) = admitted
  cases admitted with
  | nil => simp
  | cons d rest => rfl

/-- A file that the pipeline checked adds its admitted diagnostics. -/
theorem settles_checked {env : Env D} {setup : Setup D} {visited : List FilePath}
    {settled : List FileOutcome} {st : Locals} (h : Tracks env visited settled st)
    (file : FilePath) (source : String) (diagnostics : List Diagnostic) :
    Settles env setup visited settled (resultOutcome setup file source (.ok diagnostics))
      (keepResult setup file source (.ok diagnostics) st) := by
  rw [keepResult_ok, resultOutcome]
  refine ⟨rfl, { h with failures := ?_, diagnostics := ?_, remedies := ?_, sources := ?_ }⟩
  · simp [h.failures, failuresOf]
  · simp [h.diagnostics, diagnosticsOf]
  · simp [h.remedies, remediesOf]
  · simp [h.sources, sourcesOf]

theorem settles_result {env : Env D} {setup : Setup D} {visited : List FilePath}
    {settled : List FileOutcome} {st : Locals} (h : Tracks env visited settled st)
    (file : FilePath) (source : String) (result : Except RunPipelineError (List Diagnostic)) :
    Settles env setup visited settled (resultOutcome setup file source result)
      (keepResult setup file source result st) := by
  cases result with
  | ok diagnostics => exact settles_checked h file source diagnostics
  | error error =>
    have hrecord := settles_record setup h file error.anyhow error.uncovered?
    cases error <;> exact hrecord

theorem settles_source {env : Env D} {setup : Setup D} {visited : List FilePath}
    {settled : List FileOutcome} {st : Locals} (h : Tracks env visited settled st) (k : Nat)
    (file : FilePath) (source : String) :
    Settles env setup visited settled (sourceOutcome env setup k file source)
      (checkSource env setup k file source st) := by
  unfold sourceOutcome checkSource
  cases withContext "failed to configure the custom lints"
    (setup.customLints.instantiate setup.config.options k) with
  | error e => exact ⟨rfl, interrupted_of_tracks h⟩
  | ok passes =>
    cases Grammar.of file with
    | none => exact settles_record setup h file _ none
    | some grammar =>
      obtain ⟨hbuilt, hst⟩ := pipeline_eq h grammar
      dsimp only
      rw [← hbuilt]
      generalize st.pipeline env grammar = entry at hst
      obtain ⟨built, st'⟩ := entry
      cases built with
      | error e => exact ⟨rfl, interrupted_of_tracks hst⟩
      | ok pipeline => exact settles_result hst file source _

/-- The step of the loop: the body settles a file as its outcome says. -/
theorem checkFile_settles {env : Env D} (setup : Setup D) {visited : List FilePath}
    {settled : List FileOutcome} {st : Locals} (h : Tracks env visited settled st)
    (file : FilePath) :
    Settles env setup (visited ++ [file]) settled (fileOutcome env setup visited.length file)
      (checkFile env setup visited.length file st) := by
  have hlength : st.sent.length = visited.length := by rw [h.sent, List.length_map]
  unfold checkFile fileOutcome send
  rw [hlength, ← checking]
  cases withContext "failed to report progress" (env.present visited.length (checking file)) with
  | error e => exact ⟨rfl, interrupted_of_tracks h⟩
  | ok u =>
    have hsent : Tracks env (visited ++ [file]) settled
        { st with sent := st.sent ++ [checking file] } :=
      { h with sent := by simp [h.sent] }
    cases env.readToString visited.length file with
    | error e => exact settles_record setup hsent file _ none
    | ok source => exact settles_source hsent _ file source

/-- What a loop over `files` does whose batch settles `batch`. -/
def LoopEnds (env : Env D) (visited : List FilePath) (settled : List FileOutcome)
    (files : List FilePath) (batch : List FileOutcome × Option Anyhow)
    (ran : AnyhowResult Unit × Locals) : Prop :=
  match batch.2 with
  | none =>
    ran.1 = .ok () ∧
      Tracks env (visited ++ files.take batch.1.length) (settled ++ batch.1) ran.2
  | some e => ran.1 = .error e ∧ Interrupted (settled ++ batch.1) ran.2

/-- A file that the body settled comes before what the rest of the loop settles. -/
theorem loopEnds_cons {env : Env D} {visited files : List FilePath} {settled : List FileOutcome}
    {file : FilePath} {outcome : FileOutcome} {batch : List FileOutcome × Option Anyhow}
    {ran : AnyhowResult Unit × Locals}
    (h : LoopEnds env (visited ++ [file]) (settled ++ [outcome]) files batch ran) :
    LoopEnds env visited settled (file :: files) (outcome :: batch.1, batch.2) ran := by
  unfold LoopEnds at h ⊢
  dsimp only
  split at h <;> simpa using h

/-- The whole loop settles the outcomes of its files as a batch: it stops at failed files in abort
    mode, and ends with the error of the first file that is fatal. -/
theorem walkFiles_settles {env : Env D} (setup : Setup D) (files : List FilePath)
    {visited : List FilePath} {settled : List FileOutcome} {st : Locals}
    (h : Tracks env visited settled st) :
    LoopEnds env visited settled files
      (Batch.settle (setup.recovery = .Abort) (outcomesFrom env setup visited.length files))
      (walkFiles env setup visited.length files st) := by
  induction files generalizing visited settled st with
  | nil => exact ⟨rfl, by simpa [Batch.settle, outcomesFrom, walkFiles] using h⟩
  | cons file rest ih =>
    have hstep := checkFile_settles setup h file
    rw [outcomesFrom, walkFiles]
    generalize checkFile env setup visited.length file st = ran at hstep
    obtain ⟨flow, st'⟩ := ran
    cases hout : fileOutcome env setup visited.length file with
    | fatal e =>
      rw [hout] at hstep
      obtain ⟨hflow, hinterrupted⟩ := hstep
      dsimp only at hflow
      subst hflow
      exact ⟨rfl, by simpa [Batch.settle] using hinterrupted⟩
    | done checked =>
      rw [hout] at hstep
      obtain ⟨hflow, htracks⟩ := hstep
      dsimp only at hflow
      subst hflow
      have hrest := ih htracks
      rw [List.length_append] at hrest
      exact loopEnds_cons hrest
    | failed f =>
      rw [hout] at hstep
      obtain ⟨hflow, htracks⟩ := hstep
      dsimp only at hflow
      cases hrecovery : setup.recovery with
      | Abort =>
        rw [hrecovery, ErrorRecovery.flow] at hflow
        subst hflow
        exact ⟨rfl, by simpa [Batch.settle] using htracks⟩
      | Continue =>
        rw [hrecovery, ErrorRecovery.flow] at hflow
        subst hflow
        have hrest := ih htracks
        rw [List.length_append, hrecovery] at hrest
        exact loopEnds_cons hrest

end Stiles
