import Stiles.General.KeyMap
import Stiles.Types.Coverage
import Stiles.Types.PathComponents

/-
  What a check run tells its user.

  The report is a stream of outputs: progress, remedies and one `Finding` for each diagnostic
  (`finding.rs`). The closing text holds the notices, the discovery errors and the failed files
  (`closing_text.rs`, `file_failure.rs`). The source keeps it as one string; here it is the list of
  its lines, each with what it is about, and `ClosingText.text` is the string.
-/

namespace Stiles

/-! ## The threshold -/

inductive FailureThreshold where
  | Errors
  | Warnings
deriving DecidableEq, Repr

namespace FailureThreshold

def minimumFailingSeverity : FailureThreshold → Severity
  | .Errors => .Error
  | .Warnings => .Warn

def isMetBy (threshold : FailureThreshold) (severity : Severity) : Bool :=
  threshold.minimumFailingSeverity ≤ severity

/-- Raises a failing diagnostic to error severity. -/
def promote (threshold : FailureThreshold) (diagnostic : Diagnostic) : Diagnostic :=
  match threshold.isMetBy diagnostic.severity with
  | true => diagnostic.withSeverity .Error
  | false => diagnostic

/-- Promoting changes nothing but the severity. -/
theorem promote_eq (threshold : FailureThreshold) (d : Diagnostic) :
    threshold.promote d =
      d.withSeverity (if threshold.isMetBy d.severity then .Error else d.severity) := by
  unfold promote
  cases threshold.isMetBy d.severity <;> simp

theorem promote_ruleId (threshold : FailureThreshold) (d : Diagnostic) :
    (threshold.promote d).ruleId = d.ruleId := by
  rw [promote_eq, Diagnostic.withSeverity_ruleId]

/-- A promoted diagnostic meets the threshold exactly when the diagnostic did. -/
theorem isMetBy_promote (threshold : FailureThreshold) (d : Diagnostic) :
    threshold.isMetBy (threshold.promote d).severity = threshold.isMetBy d.severity := by
  rw [promote_eq, Diagnostic.withSeverity_severity]
  cases h : threshold.isMetBy d.severity with
  | false => simp [h]
  | true => cases threshold <;> rfl

end FailureThreshold

/-! ## The outcome of a run -/

inductive CheckOutcome where
  | Success
  | Failure
deriving DecidableEq, Repr

namespace CheckOutcome

def fromDiagnostics (diagnostics : List Diagnostic) (threshold : FailureThreshold) :
    CheckOutcome :=
  match diagnostics.any fun diagnostic => threshold.isMetBy diagnostic.severity with
  | true => .Failure
  | false => .Success

def combine (outcome other : CheckOutcome) : CheckOutcome :=
  if outcome = .Failure ∨ other = .Failure then .Failure else .Success

theorem combine_eq_success {outcome other : CheckOutcome} :
    outcome.combine other = .Success ↔ outcome = .Success ∧ other = .Success := by
  cases outcome <;> cases other <;> simp [combine]

theorem fromDiagnostics_eq_success {diagnostics : List Diagnostic}
    {threshold : FailureThreshold} :
    fromDiagnostics diagnostics threshold = .Success ↔
      ∀ d ∈ diagnostics, threshold.isMetBy d.severity = false := by
  unfold fromDiagnostics
  cases h : diagnostics.any fun d => threshold.isMetBy d.severity with
  | true =>
    obtain ⟨d, hd, hmet⟩ := List.any_eq_true.mp h
    simp only [reduceCtorEq, false_iff, not_forall]
    exact ⟨d, hd, by simp [hmet]⟩
  | false => simpa using List.any_eq_false.mp h

end CheckOutcome

/-! ## Findings -/

/-- The sources of the files that produced a diagnostic. Equal paths are one key. -/
abbrev Sources := KeyMap FilePath.components String

def severityName : Severity → String
  | .Help => "help"
  | .Info => "note"
  | .Warn => "warning"
  | .Error => "error"

/-- The byte offsets at which a character begins, and the end of the text. -/
def charBoundaries : List Char → Nat → List Nat
  | [], start => [start]
  | c :: rest, start => start :: charBoundaries rest (start + c.utf8Size)

def isCharBoundary (source : String) (offset : Nat) : Bool :=
  (charBoundaries source.toList 0).contains offset

/-- The loop of `position` that backs up to a character boundary. Offset 0 is one. -/
def backUp (source : String) : Nat → Nat
  | 0 => 0
  | stop + 1 => if isCharBoundary source (stop + 1) then stop + 1 else backUp source stop

/-- The characters of the first `stop` bytes. -/
def textBefore : List Char → Nat → List Char
  | [], _ => []
  | c :: rest, stop => if c.utf8Size ≤ stop then c :: textBefore rest (stop - c.utf8Size) else []

/-- The line and the column of byte `offset`, both counted from one. -/
def position (source : String) (offset : Nat) : Nat × Nat :=
  let stop := backUp source (min offset source.utf8ByteSize)
  let before := textBefore source.toList stop
  let line := before.count '\n' + 1
  let column := (before.reverse.takeWhile fun c => c ≠ '\n').length + 1
  (line, column)

/-- One diagnostic as it is reported. -/
structure Finding where
  rule : String
  severity : String
  message : String
  file : FilePath
  start : Nat
  stop : Nat
  line : Nat
  column : Nat
  rendered : String
deriving DecidableEq

/-- `Finding::builder`. The renderer is the reporting crate's. -/
def Finding.new (renderToString : Diagnostic → Sources → Except Anyhow String)
    (diagnostic : Diagnostic) (sources : Sources) : Except Anyhow Finding :=
  match withContext "failed to render the diagnostic" (renderToString diagnostic sources) with
  | .error e => .error e
  | .ok rendered =>
    let span := diagnostic.span
    let (line, column) :=
      match sources.get span.file with
      | some source => position source span.start
      | none => (1, 1)
    .ok
      { rule := diagnostic.ruleId.asStr
        severity := severityName diagnostic.severity
        message := diagnostic.message
        file := span.file
        start := span.start
        stop := span.stop
        line
        column
        rendered }

/-- What a command sends to its presenter. `of` is the diagnostic behind a finding. -/
inductive Output where
  | detail (text : String)
  | message (text : String)
  | artifact (finding : Finding) (of : Diagnostic)
deriving DecidableEq

namespace Output

def diagnostic? : Output → Option Diagnostic
  | .artifact _ of => some of
  | _ => none

def detail? : Output → Option String
  | .detail text => some text
  | _ => none

end Output

/-- The diagnostics whose findings reached the report. -/
def reported (sent : List Output) : List Diagnostic := sent.filterMap Output.diagnostic?

/-- The progress lines of the run. -/
def progress (sent : List Output) : List String := sent.filterMap Output.detail?

@[simp] theorem reported_append (xs ys : List Output) :
    reported (xs ++ ys) = reported xs ++ reported ys :=
  List.filterMap_append

@[simp] theorem reported_message (text : String) : reported [.message text] = [] := rfl

@[simp] theorem reported_artifact (finding : Finding) (of : Diagnostic) :
    reported [.artifact finding of] = [of] := rfl

@[simp] theorem progress_append (xs ys : List Output) :
    progress (xs ++ ys) = progress xs ++ progress ys :=
  List.filterMap_append

@[simp] theorem progress_message (text : String) : progress [.message text] = [] := rfl

@[simp] theorem progress_artifact (finding : Finding) (of : Diagnostic) :
    progress [.artifact finding of] = [] := rfl

/-! ## The closing text -/

/-- A file that could not be read or analyzed. -/
structure FileFailure where
  file : FilePath
  error : Anyhow
deriving DecidableEq

def FileFailure.display (failure : FileFailure) : String :=
  "error: " ++ failure.file.text ++ ": " ++ failure.error.alternate

/-- What the lookup of prebuilt libraries has to say, as its text. -/
structure PrebuiltNotice where
  text : String
deriving DecidableEq

inductive ClosingLine where
  | notice (notice : PrebuiltNotice)
  | discoveryError (error : Anyhow)
  | failure (failure : FileFailure)
deriving DecidableEq

namespace ClosingLine

def display : ClosingLine → String
  | .notice n => n.text
  | .discoveryError e => "error: " ++ e.alternate
  | .failure f => f.display

def failure? : ClosingLine → Option FileFailure
  | .failure f => some f
  | _ => none

end ClosingLine

structure ClosingText where
  lines : List ClosingLine
deriving DecidableEq

inductive ExitCode where
  | SUCCESS
  | FAILURE
deriving DecidableEq, Repr

/-- How a command ends: its code, and the text for the standard error. -/
structure Exit where
  code : ExitCode
  text : Option String
deriving DecidableEq

namespace ClosingText

def default : ClosingText := { lines := [] }

def push (closing : ClosingText) (line : ClosingLine) : ClosingText :=
  { lines := closing.lines ++ [line] }

def extend (closing : ClosingText) (lines : List ClosingLine) : ClosingText :=
  lines.foldl push closing

/-- The text as the source keeps it, every line with its line break. -/
def text (closing : ClosingText) : String :=
  String.join (closing.lines.map fun line => line.display ++ "\n")

def intoExit (closing : ClosingText) (code : ExitCode) : Exit :=
  match closing.text.isEmpty with
  | true => { code, text := none }
  | false => { code, text := some closing.text }

/-- The exit of a command that failed. `failed` is what clawless makes of the error. -/
def intoFailure (closing : ClosingText) (failed : Exit) : Exit :=
  { code := failed.code, text := some (closing.text ++ failed.text.getD "") }

/-- The failed files that the text names, in order. -/
def failures (closing : ClosingText) : List FileFailure :=
  closing.lines.filterMap ClosingLine.failure?

theorem extend_lines (closing : ClosingText) (lines : List ClosingLine) :
    (closing.extend lines).lines = closing.lines ++ lines := by
  unfold extend
  induction lines generalizing closing with
  | nil => simp
  | cons line lines ih => simp [ih, push]

theorem failures_extend (closing : ClosingText) (lines : List ClosingLine) :
    (closing.extend lines).failures =
      closing.failures ++ lines.filterMap ClosingLine.failure? := by
  unfold failures
  rw [extend_lines, List.filterMap_append]

end ClosingText

/-! ## Recovery and remedies -/

inductive Walk where
  | Continue
  | Stop
deriving DecidableEq, Repr

inductive ErrorRecovery where
  | Abort
  | Continue
deriving DecidableEq, Repr

/-- Records a failed file, and says whether the walk goes on. -/
def ErrorRecovery.record (recovery : ErrorRecovery) (failures : List FileFailure)
    (file : FilePath) (error : Anyhow) : Walk × List FileFailure :=
  let failures := failures ++ [{ file, error }]
  match recovery with
  | .Abort => (.Stop, failures)
  | .Continue => (.Continue, failures)

/-- The remedies for the gaps of a run, each one once. -/
structure CoverageRemedies where
  remedies : List String
deriving DecidableEq, Repr

namespace CoverageRemedies

def default : CoverageRemedies := { remedies := [] }

def recordGap (remedies : CoverageRemedies) (gap : ProviderName × CoverageGap) :
    CoverageRemedies :=
  if remedies.remedies.contains gap.2.help then remedies
  else { remedies := remedies.remedies ++ [gap.2.help] }

def record (remedies : CoverageRemedies) (uncovered : UncoveredFile) : CoverageRemedies :=
  uncovered.gaps.foldl recordGap remedies

end CoverageRemedies

end Stiles
