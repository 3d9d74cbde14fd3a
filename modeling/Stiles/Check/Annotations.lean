import Stiles.Check.Verdict
import Stiles.Reporting.Renderer

/-
  The annotations in the report of a check run.

  A run renders each finding with the sources that it recorded: those of the files with an admitted
  diagnostic.

  * `sourcesOf_contains`: which files these are.
  * `run_rendered`: every finding of a run is rendered with them.
  * `annotationsKept_iff`: when no annotation is dropped, by `render` and by a run.
-/

namespace Stiles

open Reporting

variable {D : DecorationTypes}

/-- The renderer of a check run. -/
def rendering (terminal : Terminal) (order : Iteration) (diagnostic : Diagnostic)
    (sources : Sources) : AnyhowResult String :=
  (renderToString terminal order [diagnostic] sources).mapError RenderDiagnosticsError.anyhow

/-! ## The recorded sources -/

theorem keepSource_contains (sources : Sources) (checked : CheckedFile) (file : FilePath) :
    (keepSource sources checked).contains file = true ↔
      sources.contains file = true ∨ checked.diagnostics ≠ [] ∧ checked.file.Same file := by
  unfold keepSource
  cases hdiagnostics : checked.diagnostics with
  | nil => simp
  | cons d ds =>
    simp only [List.isEmpty_cons, Bool.false_eq_true, if_false]
    rw [KeyMap.contains_insert, or_comm]
    simp [FilePath.Same]

/-- The sources of a run are those of the files with an admitted diagnostic. -/
theorem sourcesOf_contains (settled : List FileOutcome) (file : FilePath) :
    (sourcesOf settled).contains file = true ↔ ∃ checked ∈ Batch.dones settled,
      checked.diagnostics ≠ [] ∧ checked.file.Same file := by
  have hfold : ∀ (files : List CheckedFile) (sources : Sources),
      (files.foldl keepSource sources).contains file = true ↔ sources.contains file = true ∨
        ∃ checked ∈ files, checked.diagnostics ≠ [] ∧ checked.file.Same file := by
    intro files
    induction files with
    | nil => simp
    | cons checked files ih =>
      intro sources
      rw [List.foldl_cons, ih, keepSource_contains, List.exists_mem_cons_iff, or_assoc]
  rw [sourcesOf, hfold]
  simp [KeyMap.contains]

/-! ## The findings of a run -/

theorem artifact_mem_reported {finding : Finding} {d : Diagnostic} {sent : List Output}
    (h : .artifact finding d ∈ sent) : d ∈ reported sent :=
  List.mem_filterMap.mpr ⟨_, h, rfl⟩

/-- A finding that is sent was built with the sources. -/
theorem reportFindings_built {env : Env D} {sources : Sources} {ds : List Diagnostic}
    {sent : List Output} {finding : Finding} {d : Diagnostic}
    (h : .artifact finding d ∈ (reportFindings env sources ds sent).2) :
    .artifact finding d ∈ sent ∨ Finding.new env.renderToString d sources = .ok finding := by
  induction ds generalizing sent with
  | nil => exact Or.inl h
  | cons first ds ih =>
    unfold reportFindings at h
    cases hfinding : Finding.new env.renderToString first sources with
    | error e =>
      rw [hfinding] at h
      exact Or.inl h
    | ok built =>
      rw [hfinding] at h
      dsimp only at h
      rcases send_cases env (.artifact built first) "failed to report a diagnostic" sent
        with hsend | ⟨e, hsend⟩
      · rw [hsend] at h
        rcases ih h with hmem | hbuilt
        · rcases List.mem_append.mp hmem with hsent | hlast
          · exact Or.inl hsent
          · obtain ⟨rfl, rfl⟩ := Output.artifact.inj (List.mem_singleton.mp hlast)
            exact Or.inr hfinding
        · exact Or.inr hbuilt
      · rw [hsend] at h
        exact Or.inl h

theorem conclude_built {env : Env D} {setup : Setup D} {closing : ClosingText} {st : Locals}
    {finding : Finding} {d : Diagnostic} (hnone : reported st.sent = [])
    (h : .artifact finding d ∈ (conclude env setup closing st).sent) :
    Finding.new env.renderToString d st.sources = .ok finding := by
  have hremedies := (reportRemedies_frame env st.remedies.remedies st.sent).1
  rw [hnone] at hremedies
  unfold conclude at h
  generalize reportRemedies env st.remedies.remedies st.sent = remedied at h hremedies
  obtain ⟨remedy, sent⟩ := remedied
  have hsent : .artifact finding d ∉ sent := by
    intro hmem
    have hreported := artifact_mem_reported hmem
    rw [hremedies] at hreported
    exact List.not_mem_nil hreported
  cases remedy with
  | error e => exact absurd h hsent
  | ok u =>
    have hbuilt : .artifact finding d ∈ (reportFindings env st.sources
        (st.allDiagnostics.map setup.threshold.promote) sent).2 := by
      dsimp only at h
      generalize reportFindings env st.sources (st.allDiagnostics.map setup.threshold.promote) sent
        = ran at h ⊢
      obtain ⟨result, sent'⟩ := ran
      cases result with
      | error e => exact h
      | ok v =>
        dsimp only at h
        split at h <;> exact h
    exact (reportFindings_built hbuilt).resolve_left hsent

/-- Every finding of a run is built with the sources of the files that the run settled. -/
theorem run_rendered {env : Env D} {args : CheckArgs} {closing : ClosingText} {setup : Setup D}
    {finding : Finding} {d : Diagnostic} (hprepare : (prepare env args closing).1 = .ok setup)
    (h : .artifact finding d ∈ (run env args closing).sent) :
    env.renderToString d
        (sourcesOf (Batch.settle (setup.recovery = .Abort) (fileOutcomes env setup)).1)
      = .ok finding.rendered := by
  cases hbatch : (Batch.settle (setup.recovery = .Abort) (fileOutcomes env setup)).2 with
  | some e =>
    have hreported := artifact_mem_reported h
    rw [(run_interrupted hprepare hbatch).2.2.2.2] at hreported
    exact absurd hreported List.not_mem_nil
  | none =>
    obtain ⟨st, htracks, hrun⟩ := run_concluded hprepare hbatch
    rw [hrun] at h
    have hnone : reported st.sent = [] := by rw [htracks.sent, reported_checking]
    have hbuilt := conclude_built hnone h
    rw [htracks.sources, Finding.new] at hbuilt
    split at hbuilt
    · cases hbuilt
    · rename_i rendered hrendered
      rw [← Except.ok.inj hbuilt]
      exact withContext_eq_ok.mp hrendered

/-- What `render` prints is complete exactly if every annotation lies in a file that has a primary
    span, and a finding of a check run is complete exactly if every annotation of its diagnostic
    lies in a file of the run with an admitted diagnostic. -/
theorem annotationsKept_iff (terminal : Terminal) (stderr : Stderr) (order : Iteration)
    (read : FilePath → Except IoError String) (env : Env D) (args : CheckArgs)
    (closing : ClosingText) (setup : Setup D)
    (hrenderer : env.renderToString = rendering terminal order)
    (hprepare : (prepare env args closing).1 = .ok setup) :
    (∀ ds, (render stderr read order ds).result = .ok () →
      (List.Forall₂ (Complete (render stderr read order ds).files) ds
          (render stderr read order ds).shown ↔
        ∀ d ∈ ds, ∀ annotation ∈ annotations d,
          ∃ other ∈ ds, other.span.file.Same annotation.span.file)) ∧
    ∀ finding d, .artifact finding d ∈ (run env args closing).sent →
      let settled := (Batch.settle (setup.recovery = .Abort) (fileOutcomes env setup)).1
      let known := addFiles order (sourcesOf settled)
      renderToString terminal order [d] (sourcesOf settled) = .ok finding.rendered ∧
        (Complete known.1 d (toCodespan d known.2) ↔
          ∀ annotation ∈ annotations d, ∃ checked ∈ Batch.dones settled,
            checked.diagnostics ≠ [] ∧ checked.file.Same annotation.span.file) := by
  refine ⟨fun ds hprinted => render_complete_iff hprinted, fun finding d hsent => ?_⟩
  intro settled known
  have hrendered := run_rendered hprepare hsent
  rw [hrenderer, rendering] at hrendered
  refine ⟨?_, ?_⟩
  · cases hresult : renderToString terminal order [d] (sourcesOf settled) with
    | error e =>
      rw [hresult] at hrendered
      cases hrendered
    | ok text =>
      rw [hresult] at hrendered
      exact congrArg Except.ok (Except.ok.inj hrendered)
  · rw [complete_iff]
    exact forall₂_congr fun annotation _ => sourcesOf_contains settled _

/-- Writes the message of a diagnostic. -/
def messageTerminal : Terminal where
  emit _ codespan := .ok (codespan.message ++ "\n").toUTF8
  utf8Error _ := "invalid utf-8 sequence"

def writableStderr : Stderr where
  emit _ _ _ := .ok ()
  flush _ := .ok ()

def inOrder : Iteration where
  order := id
  perm _ := List.Perm.refl _

/-- A diagnostic that names a declaration in another file, or in its own. -/
def citing (span : Span) (file : FilePath) : Diagnostic :=
  { Diagnostic.new ⟨"lint.number"⟩ .Warn "shadowed" span with
    origins := [⟨{ span with file }, "declared here"⟩] }

def citingPass (file : FilePath) : LintPass noteTypes where
  State := Unit
  state := ()
  languageOf _ := .Rust
  configureOf _ _ := (.ok (), ())
  checkNodeOf _ node := (.ok [citing node.span file], ())

/-- A run over one file, whose diagnostics cite `file`. -/
def citingEnv (file : FilePath) : Env noteTypes :=
  { projectEnv [⟨"src/lib.rs"⟩] (fun _ _ => .ok "abc;") (fun _ => .ok (citingPass file)) with
    renderToString := rendering messageTerminal inOrder }

/-- The first bytes of a file. -/
def firstBytes (file : FilePath) (stop : Nat) : Span := ⟨file, 0, stop, Nat.zero_le stop⟩

def statementSpan : Span := firstBytes ⟨"src/lib.rs"⟩ 4

def statementFinding : Finding :=
  { rule := "lint.number"
    severity := "warning"
    message := "shadowed"
    file := ⟨"src/lib.rs"⟩
    start := 0
    stop := 4
    line := 1
    column := 1
    rendered := "shadowed\n" }

/-- A citation of the file itself is kept. -/
theorem annotations_kept :
    let file : FilePath := ⟨"src/lib.rs"⟩
    let d := citing statementSpan file
    let printed := render writableStderr (fun _ => .ok "abc;") inOrder [d]
    List.Forall₂ (Complete printed.files) [d] printed.shown ∧
      ∃ setup, (prepare (citingEnv file) ⟨⟨"."⟩, false, false⟩ .default).1 = .ok setup ∧
        let settled := (Batch.settle (setup.recovery = .Abort)
          (fileOutcomes (citingEnv file) setup)).1
        let known := addFiles inOrder (sourcesOf settled)
        Complete known.1 d (toCodespan d known.2) := by
  intro file d printed
  have hmarked : ∀ annotation ∈ annotations d, annotation.span.file = file := by
    decide
  obtain ⟨hprinted, hrun⟩ := annotationsKept_iff messageTerminal writableStderr inOrder
    (fun _ => .ok "abc;") (citingEnv file) ⟨⟨"."⟩, false, false⟩ .default _ rfl rfl
  refine ⟨(hprinted [d] rfl).mpr ?_, _, rfl, ?_⟩
  · intro other hother annotation hannotation
    rw [List.mem_singleton.mp hother] at hannotation
    refine ⟨d, List.mem_singleton_self d, ?_⟩
    rw [hmarked annotation hannotation]
    rfl
  · refine (hrun statementFinding d (by decide)).2.mpr ?_
    intro annotation hannotation
    rw [hmarked annotation hannotation]
    exact ⟨_, List.mem_singleton_self _, by decide, rfl⟩

/-- A citation of a file without a diagnostic is dropped, in both reports. -/
theorem annotations_dropped :
    let file : FilePath := ⟨"src/main.rs"⟩
    let d := citing statementSpan file
    let printed := render writableStderr (fun _ => .ok "abc;") inOrder [d]
    (printed.result = .ok () ∧ ¬List.Forall₂ (Complete printed.files) [d] printed.shown) ∧
      ∃ setup, (prepare (citingEnv file) ⟨⟨"."⟩, false, false⟩ .default).1 = .ok setup ∧
        .artifact statementFinding d ∈ (run (citingEnv file) ⟨⟨"."⟩, false, false⟩ .default).sent ∧
        let settled := (Batch.settle (setup.recovery = .Abort)
          (fileOutcomes (citingEnv file) setup)).1
        let known := addFiles inOrder (sourcesOf settled)
        ¬Complete known.1 d (toCodespan d known.2) := by
  intro file d printed
  have hlength : (annotations d).length = 2 := rfl
  refine ⟨⟨rfl, fun h => ?_⟩, _, rfl, by decide, fun h => ?_⟩
  · obtain ⟨hfirst, _⟩ := List.forall₂_cons.mp h
    have hlabels := hfirst.length_eq
    rw [hlength] at hlabels
    exact absurd hlabels (by decide)
  · have hlabels := h.length_eq
    rw [hlength] at hlabels
    exact absurd hlabels (by decide)

end Stiles
