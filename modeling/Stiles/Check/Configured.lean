import Stiles.Check.Listing
import Stiles.Config.Load

/-
  What a configuration file says of a check run.

  A run reads the configuration of its path (`load_reads`), loads the lints, and validates the one
  against the other.

  `configuration_governs`: a table that is refused ends the run before anything else is read, and
  in a run that starts the table decides what is reported and what each lint is configured with.
-/

namespace Stiles

variable {D : DecorationTypes}

/-- What the load of a run refuses, the run ends with. -/
theorem run_of_load_error {env : Env D} {args : CheckArgs} {e : Anyhow}
    (hpath : env.pathExists args.path = true) (hload : env.loadConfig args.path = .error e)
    (closing : ClosingText) :
    run env args closing =
      { result := .error (e.context "failed to load the stiles configuration"), closing, sent := [],
        recorded := [], collected := [] } := by
  apply run_of_error
  unfold prepare
  rw [if_pos hpath, hload]
  rfl

/-- A run that starts was prepared with what its table says. -/
theorem Prepares.reads {host : ConfigHost} {env : Env D} {args : CheckArgs} {setup : Setup D}
    {project : Project} {table : ConfigTable} (h : Prepares env args setup)
    (henv : env.loadConfig args.path = (readTable host project table).map LoadedConfig.config) :
    table.Accepted host ∧ ∃ loaded, loaded.config = setup.config ∧
      Reads host project table loaded := by
  obtain ⟨loaded, hloaded, hconfig⟩ := map_eq_ok.mp (henv.symm.trans h.config)
  obtain ⟨haccepted, hreads⟩ := readTable_ok hloaded
  exact ⟨haccepted, loaded, hconfig, hreads⟩

/-- A table that is not accepted ends the run with what is wrong with it, and nothing is sent. In a
    run that starts, `[rules]` and its options name declared rules only, every reported diagnostic
    is under a rule that the table enables, or does not disable, and each lint reads from its
    options what the table sets for the rules it declares and nothing else. -/
theorem configuration_governs (host : ConfigHost) (env : Env D)
    (henv : ∀ path, env.loadConfig path =
      (StilesConfig.load host path).map LoadedConfig.config)
    (args : CheckArgs) (hpath : env.pathExists args.path = true) (project : Project)
    (table : ConfigTable) (hproject : host.project args.path = .ok project)
    (htable : project.configuration = some table) :
    let ran := run env args .default
    (¬table.Accepted host → ∃ e, StilesConfig.load host args.path = .error e ∧
      ran.result = .error (e.context "failed to load the stiles configuration") ∧
      ran.sent = [] ∧ ran.closing = .default) ∧
    ∀ setup, (prepare env args .default).1 = .ok setup →
      table.Accepted host ∧
      (∀ name, name ∈ table.rules.enable ∨ name ∈ table.rules.disable →
        name ∈ setup.customLints.declared) ∧
      (∀ rule, table.rules.options.Configures rule → rule ∈ setup.customLints.declared) ∧
      (∀ d ∈ reported ran.sent,
        (table.rules.enable = [] ∨ d.ruleId.asStr ∈ table.rules.enable) ∧
          d.ruleId.asStr ∉ table.rules.disable) ∧
      ∀ k passes, setup.customLints.instantiate setup.config.options k = .ok passes →
        ∀ (i : Nat) (made : Lint D), passes[i]? = some made → ∃ lint pass configured options,
          setup.customLints.lints[i]? = some lint ∧ lint.factory k = .ok pass ∧
          pass.configure options = (.ok (), configured) ∧ made = Lint.new configured lint.rules ∧
          ∀ (rule : RuleId) (name : String), options.names rule name =
            if rule ∈ lint.rules then table.rules.options.values? rule.asStr name else none := by
  intro ran
  have hload := load_eq_readTable hproject htable
  have hconfig := henv args.path
  rw [hload] at hconfig
  refine ⟨fun hrefused => ?_, fun setup hsetup => ?_⟩
  · rw [hload]
    cases hread : readTable host project table with
    | ok loaded => exact absurd (readTable_ok hread).1 hrefused
    | error e =>
      rw [hread] at hconfig
      have hran : ran = _ := run_of_load_error hpath hconfig .default
      rw [hran]
      exact ⟨e, rfl, rfl, rfl, rfl⟩
  · have hprepares := prepares_of_ok hsetup
    obtain ⟨haccepted, loaded, hsame, hreads⟩ := hprepares.reads hconfig
    rw [← hsame]
    refine ⟨haccepted, fun name hname => ?_, fun rule hrule => ?_, fun d hd => ?_,
      fun k passes hpasses i made hmade => ?_⟩
    · have hrules := (RuleFilter.validate_ok_iff _ _).mp hprepares.rules
      rw [← hsame] at hrules
      exact hrules ((hreads.named name).mpr hname)
    · have hoptions := (RuleOptions.validate_ok_iff _ _).mp hprepares.options
      rw [← hsame] at hoptions
      obtain ⟨option, hoption, rfl⟩ := (hreads.configures rule).mpr hrule
      exact hoptions option hoption
    · have hadmits := (reported_found hsetup hd).1
      rw [← hsame] at hadmits
      exact (hreads.admits d.ruleId).mp hadmits
    · obtain ⟨lint, hlint, pass, configured, hpass, hconfigured, hnew⟩ :=
        instantiate_getElem hpasses hmade
      exact ⟨lint, pass, configured, _, hlint, hpass, hconfigured, hnew,
        hreads.options lint.rules⟩

/-- The project of `tableHost`, which turns off the one rule of its lint. -/
theorem configuration_governs_table :
    let env : Env noteTypes :=
      { numberingEnv with
        loadConfig := fun path => (StilesConfig.load tableHost path).map LoadedConfig.config }
    reported (run env ⟨⟨"."⟩, false, false⟩ .default).sent = [] := by
  intro env
  have hreported := ((configuration_governs tableHost env (fun _ => rfl) ⟨⟨"."⟩, false, false⟩ rfl
    _ _ rfl rfl).2 _ rfl).2.2.2.1
  refine List.eq_nil_iff_forall_not_mem.mpr fun d hd => (hreported d hd).2 ?_
  obtain ⟨-, file, grammar, hfound⟩ := reported_found rfl hd
  obtain ⟨lint, hlint, -, hdeclared⟩ := hfound.declared fun lint hlint k pass options hpass => by
    obtain rfl := List.mem_singleton.mp hlint
    cases hpass
    rfl
  obtain rfl := List.mem_singleton.mp hlint
  rw [List.mem_singleton.mp hdeclared]
  exact List.mem_cons_self

end Stiles
