import Stiles.Check.Verdict

/-
  Who owns a rule.

  Four places share the ownership of rules: the load refuses shared rules, the instantiation routes
  the options, the walk refuses undeclared rules, and the report filters. `report_ownership` puts
  them together: a reported rule has one lint for the language of the file, and that lint reported
  it.
-/

namespace Stiles

variable {D : DecorationTypes}

/-- Whatever ends it, a run reports diagnostics of the files it settled, promoted. -/
theorem reported_mem {env : Env D} {args : CheckArgs} {closing : ClosingText} {setup : Setup D}
    (hprepare : (prepare env args closing).1 = .ok setup) {d : Diagnostic}
    (hd : d ∈ reported (run env args closing).sent) :
    ∃ raw ∈ diagnosticsOf (fileOutcomes env setup), d = setup.threshold.promote raw := by
  cases hbatch : (Batch.settle (setup.recovery = .Abort) (fileOutcomes env setup)).2 with
  | some e =>
    rw [(run_interrupted hprepare hbatch).2.2.2.2] at hd
    cases hd
  | none =>
    obtain ⟨st, htracks, hrun⟩ := run_concluded hprepare hbatch
    have hall : d ∈ st.allDiagnostics.map setup.threshold.promote := by
      have hsent : reported st.sent = [] := by rw [htracks.sent, reported_checking]
      rw [hrun] at hd
      cases hresult : (conclude env setup (prepare env args closing).2 st).result with
      | ok code =>
        rw [(conclude_ok hresult).1, hsent, List.nil_append] at hd
        exact hd
      | error e =>
        obtain ⟨delivered, rest, hsplit, hreported, _⟩ := conclude_error hresult
        rw [hreported, hsent, List.nil_append] at hd
        rw [hsplit]
        exact List.mem_append_left _ hd
    rw [htracks.diagnostics] at hall
    obtain ⟨raw, hraw, rfl⟩ := List.mem_map.mp hall
    obtain ⟨checked, hchecked, hraw⟩ := List.mem_flatMap.mp hraw
    have hfront := Batch.settle_prefix (setup.recovery = .Abort) (fileOutcomes env setup)
    have hmem := Batch.mem_dones.mpr (hfront.subset (Batch.mem_dones.mp hchecked))
    exact ⟨raw, List.mem_flatMap.mpr ⟨checked, hmem, hraw⟩, rfl⟩

/-- A diagnostic of the files is one of a file that was checked. -/
theorem diagnosticsOf_mem {env : Env D} {setup : Setup D} {raw : Diagnostic}
    (h : raw ∈ diagnosticsOf (fileOutcomes env setup)) :
    ∃ k file checked, setup.discovery.files[k]? = some file ∧
      WalkedBy env setup k file checked ∧ raw ∈ checked.diagnostics := by
  obtain ⟨checked, hchecked, hraw⟩ := List.mem_flatMap.mp h
  obtain ⟨k, hk⟩ := List.mem_iff_getElem?.mp (Batch.mem_dones.mp hchecked)
  rw [fileOutcomes_getElem?] at hk
  cases hfile : setup.discovery.files[k]? with
  | none => simp [hfile] at hk
  | some file =>
    rw [hfile, Option.map_some, Option.some.injEq] at hk
    exact ⟨k, file, checked, hfile, fileOutcome_done hk, hraw⟩

/-- The pass that a plugin exports under a language has that language, whatever options it was
    configured with. -/
def ExportedLanguage (lint : LoadedLint D) : Prop :=
  ∀ k pass options, lint.factory k = .ok pass →
    (pass.configure options).2.language = lint.language

/-- The lint at one position is the only one that declares the rule for the language. -/
def OwnedBy (lints : List (LoadedLint D)) (rule : RuleId) (language : Language) (i : Nat)
    (lint : LoadedLint D) : Prop :=
  lints[i]? = some lint ∧ Owns lint rule language ∧
    ∀ (j : Nat) (other : LoadedLint D), lints[j]? = some other → Owns other rule language → j = i

/-- A call of the walk that found `raw` was made to a lint that declares its rule for the language
    of the tree. -/
theorem call_owned {custom : CustomLints D} {options : RuleOptions} {k : Nat}
    {passes : List (Lint D)} {tree : DecoratedTree D}
    (hexported : ∀ lint ∈ custom.lints, ExportedLanguage lint)
    (hpasses : custom.instantiate options k = .ok passes)
    (hok : Calls.stop (walkLints tree passes).calls = none) {c : LintCall D}
    (hc : c ∈ (walkLints tree passes).calls) {raw : Diagnostic} (hraw : raw ∈ c.found) :
    ∃ lint made, custom.lints[c.callee]? = some lint ∧ passes[c.callee]? = some made ∧
      InstanceOf options k lint made ∧ Owns lint raw.ruleId tree.language := by
  obtain ⟨made, hmade, hlang⟩ := mem_takingPart.mp (call_reached hc).1
  obtain ⟨lint, hlint, hinstance⟩ := instantiate_getElem hpasses hmade
  have hpermits := permitted_of_stop_none hok hc made hmade raw hraw
  have hinstance' := hinstance
  obtain ⟨pass, configured, hfactory, hconfigured, rfl⟩ := hinstance'
  refine ⟨lint, _, hlint, hmade, hinstance, ?_, ?_⟩
  · have hmem : lint ∈ custom.lints := List.mem_of_getElem? hlint
    have hexp := hexported lint hmem k pass (options.forRules lint.rules) hfactory
    rw [hconfigured] at hexp
    exact hexp.symm.trans hlang
  · simpa [Lint.new, Declared.permits] using hpermits

/-- The lint at position `i` reported `raw` on file number `k`: the run read the file, walked its
    tree with the passes it instantiated for it, and a call of that lint found `raw`. -/
def ReportedBy (env : Env D) (setup : Setup D) (k : Nat) (file : FilePath) (grammar : Grammar)
    (i : Nat) (lint : LoadedLint D) (raw : Diagnostic) : Prop :=
  ∃ source pipeline passes made tree c,
    env.readToString k file = .ok source ∧ grammar.pipeline env.setLanguage = .ok pipeline ∧
    setup.customLints.instantiate setup.config.options k = .ok passes ∧
    passes[i]? = some made ∧ InstanceOf setup.config.options k lint made ∧
    (runOnSource pipeline source file (setup.providers file grammar.language) passes).walked =
      some (tree, walkLints tree passes) ∧
    c ∈ (walkLints tree passes).calls ∧ c.callee = i ∧ raw ∈ c.found

/-- Shared rules are refused exactly when some rule has two lints on one language. After a load
    that succeeds, every reported diagnostic is under a rule that the filter admits and that one
    lint alone declares for the language of the file; that lint reported it, and it was configured
    (`InstanceOf`) with the options of the rules it declares and no others. -/
theorem report_ownership (env : Env D) (args : CheckArgs) (closing : ClosingText)
    (setup : Setup D) (hprepare : (prepare env args closing).1 = .ok setup)
    (hexported : ∀ lint ∈ setup.customLints.lints, ExportedLanguage lint) :
    (∀ lints : List (LoadedLint D), refuseSharedRules lints = .ok () ↔ OwnsAlone lints) ∧
    ∀ d ∈ reported (run env args closing).sent,
      setup.config.rules.admits d.ruleId = true ∧
      ∃ k file grammar i lint raw,
        setup.discovery.files[k]? = some file ∧ Grammar.of file = some grammar ∧
        OwnedBy setup.customLints.lints d.ruleId grammar.language i lint ∧
        ReportedBy env setup k file grammar i lint raw ∧ d = setup.threshold.promote raw ∧
        ∀ option, option ∈ (setup.config.options.forRules lint.rules).options ↔
          option ∈ setup.config.options.options ∧
            ∃ rule ∈ lint.rules, rule.asStr = option.rule := by
  refine ⟨fun lints => refuseSharedRules_ok_iff, fun d hd => ?_⟩
  obtain ⟨raw, hraw, hpromoted⟩ := reported_mem hprepare hd
  obtain ⟨k, file, checked, hfile, hwalked, hraw⟩ := diagnosticsOf_mem hraw
  obtain ⟨grammar, passes, pipeline, parsed, hread, hgrammar, hpasses, hpipeline, _, _, htree, _,
    hok, hdiagnostics⟩ := hwalked
  rw [hdiagnostics, List.mem_filter] at hraw
  obtain ⟨c, hc, hfound⟩ := List.mem_flatMap.mp hraw.1
  have hrule : d.ruleId = raw.ruleId := by rw [hpromoted, FailureThreshold.promote_ruleId]
  obtain ⟨lint, made, hlint, hmade, hinstance, howns⟩ :=
    call_owned hexported hpasses (walkLints_ok_iff.mp hok).1 hc hfound
  change Owns lint raw.ruleId pipeline.language at howns
  rw [Grammar.pipeline_language hpipeline, ← hrule] at howns
  have halone := refuseSharedRules_ok_iff.mp (prepare_ok hprepare).unshared
  have hreported : ReportedBy env setup k file grammar c.callee lint raw :=
    ⟨checked.source, pipeline, passes, made, _, c, hread, hpipeline, hpasses, hmade, hinstance,
      htree, hc, rfl, hfound⟩
  refine ⟨by rw [hrule]; exact hraw.2, k, file, grammar, c.callee, lint, raw, hfile, hgrammar,
    ⟨hlint, howns, ?_⟩, hreported, hpromoted, fun option => RuleOptions.mem_forRules _ _ option⟩
  intro j other hj hother
  exact halone _ _ j c.callee other lint hj hlint hother howns

theorem mixedLints_exported {custom : CustomLints noteTypes}
    (h : custom.lints = mixedLints.map fun lint =>
      { factory := lint.factory, language := lint.language, rules := lint.rules,
        library := ⟨"liblints.so"⟩ }) : ∀ lint ∈ custom.lints, ExportedLanguage lint := by
  intro lint hlint k pass options hpass
  simp only [h, mixedLints, List.map_cons, List.map_nil, List.mem_cons, List.not_mem_nil,
    or_false] at hlint
  rcases hlint with rfl | rfl
  · cases hpass
    rfl
  · cases hpass
    rfl

/-- Of two lints, the second owns what is reported of the TypeScript file, and the first what is
    reported of the two Rust files. -/
theorem report_ownership_project :
    ∃ setup, (prepare mixedEnv ⟨⟨"."⟩, false, false⟩ .default).1 = .ok setup ∧
      (reported (run mixedEnv ⟨⟨"."⟩, false, false⟩ .default).sent).map
        (fun d => (d.ruleId.asStr, d.span.file.text)) =
          [("lint.name", "src/app.ts"), ("lint.number", "src/lib.rs"),
           ("lint.number", "src/lib.rs"), ("lint.number", "src/main.rs"),
           ("lint.number", "src/main.rs")] ∧
      ∀ d ∈ reported (run mixedEnv ⟨⟨"."⟩, false, false⟩ .default).sent, ∃ lint,
        if d.ruleId = ⟨"lint.name"⟩ then OwnedBy setup.customLints.lints d.ruleId .TypeScript 1 lint
        else OwnedBy setup.customLints.lints d.ruleId .Rust 0 lint := by
  refine ⟨_, rfl, by decide, fun d hd => ?_⟩
  obtain ⟨-, k, file, grammar, i, lint, raw, -, -, howned, -⟩ :=
    (report_ownership mixedEnv _ .default _ rfl (mixedLints_exported rfl)).2 d hd
  obtain ⟨hlint, ⟨hlanguage, hrule⟩, -⟩ := id howned
  rw [← hlanguage] at howned
  match i, hlint with
  | 0, hlint =>
    obtain rfl := Option.some.inj hlint
    rw [List.mem_singleton.mp hrule] at howned ⊢
    exact ⟨_, howned⟩
  | 1, hlint =>
    obtain rfl := Option.some.inj hlint
    rw [List.mem_singleton.mp hrule] at howned ⊢
    exact ⟨_, howned⟩
  | i + 2, hlint => cases hlint

end Stiles
