import Stiles.Check.Ownership
import Stiles.Check.Compare
import Stiles.CustomLints.Rules

/-
  The rules command (`rules.rs`), and what it says of a check run of the same project.

  The listing and the check load the configuration and the lints in the same way, and each applies
  `[rules]` on its own: the listing to the declared rules, the check to the diagnostics.

  * `listing_governs_check`: until the lints are loaded, both refuse the same projects with the same
    words. The listing has every declared rule once, and a check reports under those that are on,
    for the languages named.
-/

namespace Stiles

variable {D : DecorationTypes}

structure RulesArgs where
  path : FilePath

/-- The lowercase name a reader of the listing sees for a language. -/
def languageName : Language → String
  | .Rust => "rust"
  | .TypeScript => "typescript"

/-- One rule as `stiles rules` lists it. -/
structure ListedRule where
  rule : String
  languages : List String
  enabled : Bool
deriving DecidableEq, Repr

/-- Describes a declared rule under the project's configuration. -/
def ListedRule.new (declared : DeclaredRule) (config : StilesConfig) : ListedRule :=
  { rule := declared.rule.asStr
    languages := declared.languages.map languageName
    enabled := config.rules.admits declared.rule }

def ListedRule.display (listed : ListedRule) : String :=
  let text := listed.rule ++ " (" ++ ", ".intercalate listed.languages ++ ")"
  match listed.enabled with
  | true => text
  | false => text ++ ", off"

/-- How `list` returned, and what it left behind. -/
structure RulesRun where
  result : AnyhowResult Unit
  closing : ClosingText
  sent : List ListedRule

/-- The loop over the declared rules. The answers of the presenter are indexed by the number of
    rules before. -/
def presentRules (presentRule : Nat → ListedRule → AnyhowResult Unit) :
    List ListedRule → List ListedRule → AnyhowResult Unit × List ListedRule
  | [], sent => (.ok (), sent)
  | listed :: rest, sent =>
    match withContext "failed to report a rule" (presentRule sent.length listed) with
    | .error e => (.error e, sent)
    | .ok () => presentRules presentRule rest (sent ++ [listed])

def list (env : Env D) (presentRule : Nat → ListedRule → AnyhowResult Unit) (args : RulesArgs)
    (closing : ClosingText) : RulesRun :=
  if env.pathExists args.path then
    match withContext "failed to load the stiles configuration" (env.loadConfig args.path) with
    | .error e => { result := .error e, closing, sent := [] }
    | .ok config =>
      let (customLints, notices) := CustomLints.load env config
      let closing := closing.extend (notices.map .notice)
      match withContext "failed to load the project's custom lints" customLints with
      | .error e => { result := .error e, closing, sent := [] }
      | .ok customLints =>
        let listed := customLints.rules.map fun declared => ListedRule.new declared config
        let (result, sent) := presentRules presentRule listed []
        { result, closing, sent }
  else { result := .error (.msg (args.path.text ++ " does not exist")), closing, sent := [] }

/-- The command. -/
def rules (env : Env D) (presentRule : Nat → ListedRule → AnyhowResult Unit) (args : RulesArgs) :
    Exit :=
  let listing := list env presentRule args .default
  match listing.result with
  | .ok () => listing.closing.intoExit .SUCCESS
  | .error error => listing.closing.intoFailure (env.fromError error)

/-- The line of a rule that is off ends in ", off". -/
example : (ListedRule.mk "lint.todo-comment" ["rust", "typescript"] false).display =
    "lint.todo-comment (rust, typescript), off" := by decide

/-! ## The loop -/

section Presenter

variable {presentRule : Nat → ListedRule → AnyhowResult Unit}

/-- The presenter refused a rule of the listing, and said this. -/
def Refuses (presentRule : Nat → ListedRule → AnyhowResult Unit) (sent : List ListedRule)
    (e : Anyhow) : Prop :=
  ∃ listed refusal, presentRule sent.length listed = .error refusal ∧
    e = refusal.context "failed to report a rule"

theorem presentRules_ok {listed sent : List ListedRule}
    (h : (presentRules presentRule listed sent).1 = .ok ()) :
    (presentRules presentRule listed sent).2 = sent ++ listed := by
  induction listed generalizing sent with
  | nil => exact (List.append_nil sent).symm
  | cons first rest ih =>
    rw [presentRules] at h ⊢
    cases hfirst : presentRule sent.length first with
    | error e =>
      rw [hfirst] at h
      cases h
    | ok u =>
      rw [hfirst] at h
      dsimp only [withContext_ok] at h ⊢
      rw [ih h, List.append_assoc]
      rfl

theorem presentRules_error {listed sent : List ListedRule} {e : Anyhow}
    (h : (presentRules presentRule listed sent).1 = .error e) :
    Refuses presentRule (presentRules presentRule listed sent).2 e := by
  induction listed generalizing sent with
  | nil => cases h
  | cons first rest ih =>
    rw [presentRules] at h ⊢
    cases hfirst : presentRule sent.length first with
    | error refusal =>
      rw [hfirst] at h
      dsimp only [withContext_error] at h ⊢
      exact ⟨first, refusal, hfirst, (Except.error.inj h).symm⟩
    | ok u =>
      rw [hfirst] at h
      dsimp only [withContext_ok] at h ⊢
      exact ih h

end Presenter

/-! ## The part that both commands share -/

/-- The lints that a project loads, or the words with which it is refused. -/
def loadProject (env : Env D) (path : FilePath) (closing : ClosingText) :
    AnyhowResult (StilesConfig × CustomLints D) × ClosingText :=
  if env.pathExists path then
    match withContext "failed to load the stiles configuration" (env.loadConfig path) with
    | .error e => (.error e, closing)
    | .ok config =>
      let closing := closing.extend ((CustomLints.load env config).2.map .notice)
      match withContext "failed to load the project's custom lints"
        (CustomLints.load env config).1 with
      | .error e => (.error e, closing)
      | .ok customLints => (.ok (config, customLints), closing)
  else (.error (.msg (path.text ++ " does not exist")), closing)

/-- The listing of a project that loaded. -/
def listProject (presentRule : Nat → ListedRule → AnyhowResult Unit) (config : StilesConfig)
    (customLints : CustomLints D) (closing : ClosingText) : RulesRun :=
  let presented := presentRules presentRule
    (customLints.rules.map fun declared => ListedRule.new declared config) []
  { result := presented.1, closing, sent := presented.2 }

/-- The check of a project that loaded, up to the loop. -/
def prepareProject (env : Env D) (args : CheckArgs) (config : StilesConfig)
    (customLints : CustomLints D) (closing : ClosingText) :
    AnyhowResult (Setup D) × ClosingText :=
  match withContext "failed to read the project's [rules]"
    (config.rules.validate customLints.declared) with
  | .error e => (.error e, closing)
  | .ok () =>
    match withContext "failed to read the project's [rules.options]"
      ((config.options.validate customLints.declared).mapError
        ValidateRuleOptionsError.anyhow) with
    | .error e => (.error e, closing)
    | .ok () => prepareFiles env args config customLints closing

theorem list_eq (env : Env D) (presentRule : Nat → ListedRule → AnyhowResult Unit)
    (args : RulesArgs) (closing : ClosingText) :
    list env presentRule args closing =
      match loadProject env args.path closing with
      | (.error e, closing) => { result := .error e, closing, sent := [] }
      | (.ok (config, customLints), closing) =>
        listProject presentRule config customLints closing := by
  unfold list loadProject
  by_cases hpath : env.pathExists args.path = true
  · rw [if_pos hpath, if_pos hpath]
    cases withContext "failed to load the stiles configuration" (env.loadConfig args.path) with
    | error e => rfl
    | ok config =>
      dsimp only
      cases withContext "failed to load the project's custom lints" (CustomLints.load env config).1
        <;> rfl
  · rw [if_neg hpath, if_neg hpath]

theorem prepare_eq_loadProject (env : Env D) (args : CheckArgs) (closing : ClosingText) :
    prepare env args closing =
      match loadProject env args.path closing with
      | (.error e, closing) => (.error e, closing)
      | (.ok (config, customLints), closing) =>
        prepareProject env args config customLints closing := by
  unfold prepare loadProject prepareLints
  by_cases hpath : env.pathExists args.path = true
  · rw [if_pos hpath, if_pos hpath]
    cases withContext "failed to load the stiles configuration" (env.loadConfig args.path) with
    | error e => rfl
    | ok config =>
      dsimp only
      cases withContext "failed to load the project's custom lints" (CustomLints.load env config).1
        <;> rfl
  · rw [if_neg hpath, if_neg hpath]

/-! ## The listing and the check -/

/-- A load that succeeded is the one that the run was prepared with. -/
theorem Prepares.loadProject_eq {env : Env D} {args : CheckArgs} {setup : Setup D}
    (h : Prepares env args setup) (closing : ClosingText) :
    loadProject env args.path closing =
      (.ok (setup.config, setup.customLints),
        closing.extend ((CustomLints.load env setup.config).2.map .notice)) := by
  unfold loadProject
  rw [if_pos h.pathExists, h.config]
  dsimp only [withContext_ok]
  rw [h.customLints]
  rfl

/-- The listing has the rule as on, with the name of the language. -/
def ListedOn (sent : List ListedRule) (rule : RuleId) (language : Language) : Prop :=
  ∃ entry ∈ sent, entry.rule = rule.asStr ∧ languageName language ∈ entry.languages ∧
    entry.enabled = true

/-- The entries of a listing that ended well. -/
theorem mem_listed {config : StilesConfig} {custom : CustomLints D} {entry : ListedRule} :
    entry ∈ custom.rules.map (fun declared => ListedRule.new declared config) ↔
      ∃ rule, (∃ lint ∈ custom.lints, rule ∈ lint.rules) ∧
        entry = ⟨rule.asStr, (languagesOf custom.lints rule).map languageName,
          config.rules.admits rule⟩ := by
  rw [List.mem_map]
  constructor
  · intro h
    obtain ⟨declared, hdeclared, rfl⟩ := h
    obtain ⟨hrule, hlanguages⟩ := mem_rules.mp hdeclared
    exact ⟨declared.rule, hrule, by rw [ListedRule.new, hlanguages]⟩
  · intro h
    obtain ⟨rule, hrule, rfl⟩ := h
    exact ⟨⟨rule, languagesOf custom.lints rule⟩, mem_rules.mpr ⟨hrule, rfl⟩, rfl⟩

theorem listed_sorted (config : StilesConfig) (custom : CustomLints D) :
    ((custom.rules.map fun declared => ListedRule.new declared config).map
      ListedRule.rule).Pairwise (· < ·) := by
  rw [List.map_map]
  exact (rules_listed custom).sorted

theorem mem_declared {custom : CustomLints D} {name : String} :
    name ∈ custom.declared ↔ ∃ rule : RuleId, (∃ lint ∈ custom.lints, rule ∈ lint.rules) ∧
      rule.asStr = name := by
  simp only [CustomLints.declared, List.mem_toFinset, List.mem_map, List.mem_flatMap]

/-- The names of the listing are those that `[rules]` may name. -/
theorem mem_listed_names {config : StilesConfig} {custom : CustomLints D} {name : String} :
    name ∈ (custom.rules.map fun declared => ListedRule.new declared config).map ListedRule.rule ↔
      name ∈ custom.declared := by
  rw [List.mem_map, mem_declared]
  constructor
  · intro h
    obtain ⟨entry, hentry, rfl⟩ := h
    obtain ⟨rule, hrule, rfl⟩ := mem_listed.mp hentry
    exact ⟨rule, hrule, rfl⟩
  · intro h
    obtain ⟨rule, hrule, rfl⟩ := h
    exact ⟨_, mem_listed.mpr ⟨rule, hrule, rfl⟩, rfl⟩

/-- After the lints are loaded the check only adds to the closing text. -/
theorem prepareProject_closing (env : Env D) (args : CheckArgs) (config : StilesConfig)
    (custom : CustomLints D) (closing : ClosingText) :
    closing.lines <+: (prepareProject env args config custom closing).2.lines := by
  have hfiles : closing.lines <+: (prepareFiles env args config custom closing).2.lines := by
    have hextend : ∀ lines, closing.lines <+: (closing.extend lines).lines := by
      intro lines
      rw [ClosingText.extend_lines]
      exact List.prefix_append _ _
    unfold prepareFiles
    split
    · exact List.prefix_rfl
    · dsimp only
      split
      · exact hextend _
      · split
        · exact hextend _
        · exact hextend _
  unfold prepareProject
  split
  · exact List.prefix_rfl
  · split
    · exact List.prefix_rfl
    · exact hfiles

/-- A run that cannot start. -/
theorem run_of_error {env : Env D} {args : CheckArgs} {opening closing : ClosingText} {e : Anyhow}
    (h : prepare env args opening = (.error e, closing)) :
    run env args opening =
      { result := .error e, closing, sent := [], recorded := [], collected := [] } := by
  unfold run
  rw [h]

/-- A run only adds to the closing text of the part before its loop. -/
theorem run_closing (env : Env D) (args : CheckArgs) (closing : ClosingText) :
    (prepare env args closing).2.lines <+: (run env args closing).closing.lines := by
  cases hprepare : (prepare env args closing).1 with
  | error e =>
    rw [run_of_error (Prod.ext hprepare rfl)]
  | ok setup =>
    have hsetup := prepares_of_ok hprepare
    rw [(hsetup.leaves closing).2.2.1, hsetup.prepare_eq]
    split
    · rw [ClosingText.extend_lines]
      exact List.prefix_append _ _
    · exact List.prefix_rfl

/-- The diagnostic was found in a file of this grammar that the run walked. -/
def FoundIn (env : Env D) (setup : Setup D) (file : FilePath) (grammar : Grammar)
    (d : Diagnostic) : Prop :=
  ∃ k checked raw, setup.discovery.files[k]? = some file ∧ Grammar.of file = some grammar ∧
    WalkedBy env setup k file checked ∧ raw ∈ checked.diagnostics ∧
    d = setup.threshold.promote raw

/-- What is reported was found in a file, and the filter admits it. -/
theorem reported_found {env : Env D} {args : CheckArgs} {closing : ClosingText} {setup : Setup D}
    (hprepare : (prepare env args closing).1 = .ok setup) {d : Diagnostic}
    (hd : d ∈ reported (run env args closing).sent) :
    setup.config.rules.admits d.ruleId = true ∧
      ∃ file grammar, FoundIn env setup file grammar d := by
  obtain ⟨raw, hraw, hpromoted⟩ := reported_mem hprepare hd
  obtain ⟨k, file, checked, hfile, hwalked, hraw⟩ := diagnosticsOf_mem hraw
  have hkept := hraw
  obtain ⟨grammar, _, _, _, _, hgrammar, _, _, _, _, _, _, _, hdiagnostics⟩ := id hwalked
  rw [hdiagnostics, List.mem_filter] at hkept
  refine ⟨?_, file, grammar, k, checked, raw, hfile, hgrammar, hwalked, hraw, hpromoted⟩
  rw [hpromoted, FailureThreshold.promote_ruleId]
  exact hkept.2

/-- A lint of the language of the file declares what was found there. -/
theorem FoundIn.declared {env : Env D} {setup : Setup D} {file : FilePath} {grammar : Grammar}
    {d : Diagnostic} (h : FoundIn env setup file grammar d)
    (hexported : ∀ lint ∈ setup.customLints.lints, ExportedLanguage lint) :
    ∃ lint ∈ setup.customLints.lints, Owns lint d.ruleId grammar.language := by
  obtain ⟨k, checked, raw, _, hgrammar, hwalked, hraw, rfl⟩ := h
  obtain ⟨grammar', passes, pipeline, _, _, hgrammar', hpasses, hpipeline, _, _, _, _, hok,
    hdiagnostics⟩ := hwalked
  obtain rfl := Option.some.inj (hgrammar.symm.trans hgrammar')
  rw [hdiagnostics, List.mem_filter] at hraw
  obtain ⟨c, hc, hfound⟩ := List.mem_flatMap.mp hraw.1
  obtain ⟨lint, made, hlint, _, _, howns⟩ :=
    call_owned hexported hpasses (walkLints_ok_iff.mp hok).1 hc hfound
  change Owns lint raw.ruleId pipeline.language at howns
  rw [Grammar.pipeline_language hpipeline] at howns
  rw [FailureThreshold.promote_ruleId]
  exact ⟨lint, List.mem_of_getElem? hlint, howns⟩

/-- The listing and a check of the same path refuse the same projects with the same words until the
    lints are loaded. What the check alone refuses comes after that, and only the presenter can
    stop the listing there. A listing that ends well has each declared rule once, by name, and no
    other. The closing text of the check begins with its closing text, `[rules]` names listed rules
    only, and every diagnostic that the check reports is under a rule that is listed as on for the
    language of the file it was found in. A rule that is listed as off is never reported. -/
theorem listing_governs_check (env : Env D)
    (presentRule : Nat → ListedRule → AnyhowResult Unit) (args : CheckArgs)
    (hexported : ∀ config custom, (CustomLints.load env config).1 = .ok custom →
      ∀ lint ∈ custom.lints, ExportedLanguage lint) :
    let listed := list env presentRule ⟨args.path⟩ .default
    let ran := run env args .default
    let project := (loadProject env args.path .default).1
    (∀ e, project = .error e →
      listed.result = .error e ∧ ran.result = .error e ∧ listed.sent = [] ∧ ran.sent = [] ∧
        ran.closing = listed.closing) ∧
    (∀ e, listed.result = .error e → project = .error e ∨ Refuses presentRule listed.sent e) ∧
    (∀ e, (prepare env args .default).1 = .error e → project = .error e ∨
      ∃ config custom, project = .ok (config, custom) ∧
        (prepareProject env args config custom listed.closing).1 = .error e) ∧
    (listed.result = .ok () →
      (∃ config custom, project = .ok (config, custom) ∧
        ∀ name, name ∈ listed.sent.map ListedRule.rule ↔ name ∈ custom.declared) ∧
      (listed.sent.map ListedRule.rule).Pairwise (· < ·) ∧
      listed.closing.lines <+: ran.closing.lines ∧
      ∀ setup, (prepare env args .default).1 = .ok setup →
        (∀ name ∈ setup.config.rules.named, name ∈ listed.sent.map ListedRule.rule) ∧
        ∀ d ∈ reported ran.sent,
          (∃ file grammar, FoundIn env setup file grammar d ∧
            ListedOn listed.sent d.ruleId grammar.language) ∧
          ∀ entry ∈ listed.sent, entry.enabled = false → entry.rule ≠ d.ruleId.asStr) := by
  intro listed ran project
  have hlisted : listed = _ := list_eq env presentRule ⟨args.path⟩ .default
  have hprepare := prepare_eq_loadProject env args .default
  have hproject : project = (loadProject env args.path .default).1 := rfl
  generalize hload : loadProject env args.path .default = loaded at hlisted hprepare hproject
  obtain ⟨answer, closing⟩ := loaded
  rw [hproject]
  cases answer with
  | error e =>
    dsimp only at hlisted hprepare ⊢
    have hran : ran = _ := run_of_error hprepare
    rw [hlisted, hran, hprepare]
    refine ⟨fun e' he => ?_, fun e' he => Or.inl ?_, fun e' he => Or.inl ?_, nofun⟩
    · rw [Except.error.inj he]
      exact ⟨rfl, rfl, rfl, rfl, rfl⟩
    · rw [Except.error.inj he]
    · rw [Except.error.inj he]
  | ok project =>
    obtain ⟨config, custom⟩ := project
    dsimp only at hlisted hprepare ⊢
    rw [hlisted]
    refine ⟨nofun, fun e he => Or.inr (presentRules_error he), fun e he => Or.inr ?_,
      fun hok => ?_⟩
    · rw [hprepare] at he
      exact ⟨config, custom, rfl, he⟩
    have hsent : (listProject presentRule config custom closing).sent =
        custom.rules.map fun declared => ListedRule.new declared config := presentRules_ok hok
    rw [hsent]
    refine ⟨⟨config, custom, rfl, fun name => mem_listed_names⟩, listed_sorted config custom, ?_,
      fun setup hsetup => ?_⟩
    · have hfirst := prepareProject_closing env args config custom closing
      rw [← hprepare] at hfirst
      exact hfirst.trans (run_closing env args .default)
    · have hprepares := prepares_of_ok hsetup
      have hsame := hprepares.loadProject_eq .default
      rw [hload, Prod.mk.injEq, Except.ok.injEq, Prod.mk.injEq] at hsame
      obtain ⟨⟨rfl, rfl⟩, -⟩ := hsame
      refine ⟨fun name hname => ?_, fun d hd => ?_⟩
      · exact mem_listed_names.mpr ((RuleFilter.validate_ok_iff _ _).mp hprepares.rules hname)
      · obtain ⟨hadmits, file, grammar, hfound⟩ := reported_found hsetup hd
        obtain ⟨lint, hlint, howns⟩ := hfound.declared (hexported _ _ hprepares.customLints)
        refine ⟨⟨file, grammar, hfound, _, mem_listed.mpr ⟨d.ruleId, ⟨lint, hlint, howns.2⟩, rfl⟩,
          rfl, ?_, hadmits⟩, fun entry hentry hoff hrule => ?_⟩
        · exact List.mem_map_of_mem (mem_languagesOf.mpr ⟨lint, hlint, howns⟩)
        · obtain ⟨rule, -, rfl⟩ := mem_listed.mp hentry
          have hsame : rule = d.ruleId := congrArg RuleId.mk hrule
          rw [← hsame] at hadmits
          exact Bool.false_ne_true (hoff.symm.trans hadmits)

/-- A lint that numbers the statements of one file. -/
def numberingEnv : Env noteTypes :=
  projectEnv [⟨"src/lib.rs"⟩] (fun _ _ => .ok "abc;") fun _ => .ok (numberingPass 0)

/-- A project with one lint, which numbers the statements of a file: its rule is listed as on. -/
theorem listing_governs_check_numbering :
    ∃ d ∈ reported (run numberingEnv ⟨⟨"."⟩, false, false⟩ .default).sent,
      ∃ entry ∈ (list numberingEnv (fun _ _ => .ok ()) ⟨⟨"."⟩⟩ .default).sent,
        entry.rule = d.ruleId.asStr ∧ entry.enabled = true := by
  have hreports : (reported (run numberingEnv ⟨⟨"."⟩, false, false⟩ .default).sent).isEmpty =
      false := by decide
  obtain ⟨d, hd⟩ := List.isEmpty_eq_false_iff_exists_mem.mp hreports
  have hgoverns := (listing_governs_check numberingEnv (fun _ _ => .ok ()) ⟨⟨"."⟩, false, false⟩
    ?_).2.2.2 (by decide)
  · obtain ⟨⟨_, _, _, entry, hentry, hrule, _, henabled⟩, _⟩ := (hgoverns.2.2.2 _ rfl).2 d hd
    exact ⟨d, hd, entry, hentry, hrule, henabled⟩
  · intro config custom hload lint hlint k pass options hpass
    obtain rfl := Except.ok.inj hload
    obtain rfl := List.mem_singleton.mp hlint
    cases hpass
    rfl

end Stiles
