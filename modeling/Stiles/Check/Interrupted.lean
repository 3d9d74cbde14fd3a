import Stiles.Check.Verdict

/-
  Check runs that end with an error of their own.

  The failures and the diagnostics of a run sit in locals until the loop is over. An error inside
  the loop returns past them, and an error of the presenter or of the renderer ends the report.
  `run_keeps_iff` says exactly when a keep-going run that ends with an error loses nothing;
  `run_drops_interrupted` is a run that does.
-/

namespace Stiles

open Batch (Outcome)

variable {D : DecorationTypes}

/-- Everything a run recorded and collected reaches its user: the failures in the closing text, the
    diagnostics in the report. -/
def KeepsAll (ran : CheckRun) (threshold : FailureThreshold) : Prop :=
  ran.recorded.Sublist ran.closing.failures ∧
    (ran.collected.map threshold.promote).Sublist (reported ran.sent)

instance (ran : CheckRun) (threshold : FailureThreshold) : Decidable (KeepsAll ran threshold) :=
  inferInstanceAs (Decidable (_ ∧ _))

/-- The files leave nothing that an error of the run could lose: before a file that ends the run
    no file failed and none has an admitted diagnostic, and if no file ends the run, none has an
    admitted diagnostic. -/
def NothingToLose (env : Env D) (args : CheckArgs) : Prop :=
  ∀ setup, (prepare env args .default).1 = .ok setup →
    (∀ before e after, fileOutcomes env setup = before ++ .fatal e :: after →
      (∀ o ∈ before, o.fatal? = none) → failuresOf before = [] ∧ diagnosticsOf before = []) ∧
    ((∀ o ∈ fileOutcomes env setup, o.fatal? = none) → diagnosticsOf (fileOutcomes env setup) = [])

/-- A file that ends the run takes along what the files before it left. -/
theorem keepsAll_interrupted {ran : CheckRun} {threshold : FailureThreshold}
    (hclosing : ran.closing.failures = []) (hreported : reported ran.sent = []) :
    KeepsAll ran threshold ↔ ran.recorded = [] ∧ ran.collected = [] := by
  unfold KeepsAll
  rw [hclosing, hreported, List.sublist_nil, List.sublist_nil, List.map_eq_nil_iff]

/-- An error while the run reports takes along diagnostics, unless there are none. -/
theorem keepsAll_concluded {env : Env D} {setup : Setup D} {closing : ClosingText} {st : Locals}
    {e : Anyhow} (hsent : reported st.sent = [])
    (hfail : (conclude env setup closing st).result = .error e) :
    KeepsAll (conclude env setup closing st) setup.threshold ↔ st.allDiagnostics = [] := by
  obtain ⟨delivered, rest, hsplit, hreported, hrest⟩ := conclude_error hfail
  obtain ⟨hrecorded, hcollected, hfailures, _⟩ := conclude_frame env setup closing st
  unfold KeepsAll
  rw [hrecorded, hcollected, hfailures, hreported, hsent, List.nil_append, hsplit]
  constructor
  · rintro ⟨_, hsub⟩
    have hlen := hsub.length_le
    rw [List.length_append] at hlen
    have hnil : rest = [] := List.eq_nil_of_length_eq_zero (by omega)
    rw [hnil, hrest hnil] at hsplit
    exact List.map_eq_nil_iff.mp hsplit
  · intro hnone
    rw [hnone, List.map_nil] at hsplit
    obtain ⟨rfl, rfl⟩ := List.append_eq_nil_iff.mp hsplit.symm
    exact ⟨List.sublist_append_right _ _, List.Sublist.refl _⟩

/-- The condition of `NothingToLose` on the outcomes of the files. -/
def LeavesNothing (outcomes : List FileOutcome) : Prop :=
  (∀ before e after, outcomes = before ++ .fatal e :: after →
    (∀ o ∈ before, o.fatal? = none) → failuresOf before = [] ∧ diagnosticsOf before = []) ∧
  ((∀ o ∈ outcomes, o.fatal? = none) → diagnosticsOf outcomes = [])

theorem nothingToLose_iff {env : Env D} {args : CheckArgs} {setup : Setup D}
    (hprepare : (prepare env args .default).1 = .ok setup) :
    NothingToLose env args ↔ LeavesNothing (fileOutcomes env setup) := by
  unfold NothingToLose LeavesNothing
  rw [hprepare]
  simp only [Except.ok.injEq, forall_eq']

theorem fatal_not_mem {before after : List FileOutcome} {e : Anyhow} :
    ¬ ∀ o ∈ before ++ .fatal e :: after, o.fatal? = none := by
  intro hnone
  have hfatal := hnone (.fatal e) (List.mem_append_right _ List.mem_cons_self)
  cases hfatal

/-- Where a file ends the run, what counts is what the files before it left. -/
theorem leavesNothing_of_fatal {outcomes : List FileOutcome} {e : Anyhow}
    (hbatch : (Batch.settle false outcomes).2 = some e) :
    LeavesNothing outcomes ↔ failuresOf (Batch.settle false outcomes).1 = [] ∧
      diagnosticsOf (Batch.settle false outcomes).1 = [] := by
  have hsettle := Batch.settle_keepGoing outcomes
  rw [hbatch] at hsettle
  obtain ⟨after, hsplit, hbefore⟩ := hsettle
  constructor
  · rintro ⟨hclean, _⟩
    exact hclean _ e after hsplit hbefore
  · intro hnone
    refine ⟨fun before e' after' hsplit' hbefore' => ?_, fun hnofatal => ?_⟩
    · have hsettled := Batch.settle_keepGoing_at after' e' hbefore'
      rw [← hsplit'] at hsettled
      rw [hsettled] at hnone
      exact hnone
    · rw [hsplit] at hnofatal
      exact absurd hnofatal fatal_not_mem

/-- Where no file ends the run, what counts is what all files left. -/
theorem leavesNothing_of_settled {outcomes : List FileOutcome}
    (hbatch : (Batch.settle false outcomes).2 = none) :
    LeavesNothing outcomes ↔ diagnosticsOf (Batch.settle false outcomes).1 = [] := by
  have hsettle := Batch.settle_keepGoing outcomes
  rw [hbatch] at hsettle
  obtain ⟨hall, hnofatal⟩ := hsettle
  rw [hall]
  constructor
  · rintro ⟨_, hnone⟩
    exact hnone hnofatal
  · intro hnone
    refine ⟨fun before e after hsplit _ => ?_, fun _ => hnone⟩
    rw [hsplit] at hnofatal
    exact absurd hnofatal fatal_not_mem

/-- A keep-going run that ends with an error keeps everything exactly when there is nothing to
    lose: no file before the one that ends it failed or has an admitted diagnostic, and if the
    error comes after the loop, no file has an admitted diagnostic. -/
theorem run_keeps_iff (env : Env D) (args : CheckArgs) (hkeep : args.keepGoing = true)
    (e : Anyhow) (hfail : (run env args .default).result = .error e) :
    KeepsAll (run env args .default) args.threshold ↔ NothingToLose env args := by
  cases hprepare : (prepare env args .default).1 with
  | error x =>
    obtain ⟨_, hrecorded, hcollected, _⟩ := run_refused hprepare
    have hkeeps : KeepsAll (run env args .default) args.threshold := by
      unfold KeepsAll
      rw [hrecorded, hcollected]
      exact ⟨List.nil_sublist _, List.nil_sublist _⟩
    refine iff_of_true hkeeps fun setup hsetup => ?_
    rw [hprepare] at hsetup
    cases hsetup
  | ok setup =>
    have hflag := flag_keepGoing (prepare_ok hprepare).recovery hkeep
    rw [nothingToLose_iff hprepare]
    cases hbatch : (Batch.settle false (fileOutcomes env setup)).2 with
    | some x =>
      obtain ⟨_, hrecorded, hcollected, hclosing, hreported⟩ :=
        run_interrupted hprepare (by rw [hflag]; exact hbatch)
      rw [hflag] at hrecorded hcollected
      rw [keepsAll_interrupted hclosing hreported, hrecorded, hcollected,
        leavesNothing_of_fatal hbatch]
    | none =>
      obtain ⟨st, htracks, hrun⟩ := run_concluded hprepare (by rw [hflag]; exact hbatch)
      have hsent : reported st.sent = [] := by rw [htracks.sent, reported_checking]
      rw [hflag] at htracks
      rw [hrun] at hfail ⊢
      rw [← (prepare_ok hprepare).threshold, keepsAll_concluded hsent hfail, htracks.diagnostics,
        leavesNothing_of_settled hbatch]

/-- Three files: the first is no UTF-8, the second gets two warnings, and while the third is
    checked the factory of the lint panics. -/
def interruptedEnv : Env noteTypes :=
  projectEnv [⟨"src/a.rs"⟩, ⟨"src/b.rs"⟩, ⟨"src/c.rs"⟩]
    (fun k _ => if k = 0 then .error ⟨"stream did not contain valid UTF-8"⟩ else .ok "abc;")
    (fun k => if k = 2 then .error ⟨"no state"⟩ else .ok (numberingPass 0))

def interruptedError : Anyhow :=
  ⟨"failed to configure the custom lints",
    ["a lint pass panicked while it was constructed", "no state"]⟩

/-- The failure of the first file and the warnings of the second reach nobody. -/
theorem run_drops_interrupted :
    (run interruptedEnv ⟨⟨"."⟩, true, false⟩ .default).result = .error interruptedError ∧
      (run interruptedEnv ⟨⟨"."⟩, true, false⟩ .default).recorded.length = 1 ∧
      (run interruptedEnv ⟨⟨"."⟩, true, false⟩ .default).collected.length = 2 ∧
      ¬ KeepsAll (run interruptedEnv ⟨⟨"."⟩, true, false⟩ .default) .Errors := by
  decide

/-- A factory that panics at the first file has nothing to take along. -/
theorem run_keeps_iff_first :
    KeepsAll (run (projectEnv [⟨"src/a.rs"⟩] (fun _ _ => .ok "abc;") (fun _ => .error ⟨"no state"⟩))
        ⟨⟨"."⟩, true, false⟩ .default) .Errors ↔
      NothingToLose (projectEnv [⟨"src/a.rs"⟩] (fun _ _ => .ok "abc;")
        (fun _ => .error ⟨"no state"⟩)) ⟨⟨"."⟩, true, false⟩ :=
  run_keeps_iff _ ⟨⟨"."⟩, true, false⟩ rfl interruptedError (by decide)

end Stiles
