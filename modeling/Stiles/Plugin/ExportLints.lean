import Stiles.Codegen.Visitor
import Stiles.Core.WalkOrder
import Stiles.CustomLints.Loaded
import Stiles.General.Perform

/-
  The lints of a plugin, from what their author writes to what a walk calls (`export_lints.rs`,
  `declares_rules.rs`, `lint_pass_adapter.rs`).

  A `WrittenLint` is a type with an implementation of a generated trait and of `DeclaresRules`.
  `stilesLoad` is the function that `export_lints!` writes: it lists every lint of every group, and a
  panic of a rule's declaration ends it. `adapter` bridges a written lint to `LintPass` through the
  generated dispatch of its language.

  * `loadLibraries_plugins`: a load that succeeds keeps one lint for each written one, in the order
    of the plugins and of the lints in each.
  * `written_lints_run`: in a walk over their instances, each written lint of the tree's language
    gets the calls of its own methods for every named node, in pre-order, whatever the other lints
    are; the walk succeeds if each of them does alone.
-/

namespace Stiles

open Calls (perform Succeeds solo)
open Codegen (MatchKind Methods NodeType execDispatch performCalls expectedCalls methodName)

/-- A lint as its author writes it. Each of its parts is code of the plugin: a panic in it is the
    value that `Panic::catch` makes of it. -/
structure WrittenLint (D : DecorationTypes) where
  State : Type
  /-- The expression in `export_lints!`, evaluated for file number `k`. -/
  construct : Nat → Except Panic State
  /-- `DeclaresRules::rules` of the expression, evaluated when the plugin is loaded. -/
  declared : Except Panic (List RuleId)
  configure : State → RuleOptions → Except Panic Unit × State
  methods : Methods D State

variable {D : DecorationTypes} {σ : Type}

/-- The body of the dispatch that was generated for each language. -/
abbrev Dispatches := Language → List MatchKind

/-- `lint_pass_adapter!`: the written lint behind the generated dispatch. -/
def WrittenLint.adapter (lint : WrittenLint D) (language : Language) (dispatch : List MatchKind)
    (state : lint.State) : LintPass D where
  State := lint.State
  state := state
  languageOf _ := language
  configureOf := lint.configure
  checkNodeOf state node := execDispatch lint.methods node dispatch state []

/-- One group of `export_lints!`, whose grammar asks for a lint in each. -/
structure LintGroup (D : DecorationTypes) where
  language : Language
  lints : List (WrittenLint D)
  lints_ne : lints ≠ []

/-- A lint of a group, with the language of the group. -/
structure GroupEntry (D : DecorationTypes) where
  language : Language
  lint : WrittenLint D

def LintGroup.entries (group : LintGroup D) : List (GroupEntry D) :=
  group.lints.map fun lint => ⟨group.language, lint⟩

/-- The factory that `export_lints!` writes for a lint. -/
def GroupEntry.factory (dispatches : Dispatches) (entry : GroupEntry D) (k : Nat) :
    Except Panic (LintPass D) :=
  (entry.lint.construct k).map (entry.lint.adapter entry.language (dispatches entry.language))

/-- The pushes of `__stiles_load`, one for each lint of each group. -/
def pushLints (dispatches : Dispatches) :
    List (GroupEntry D) → List (ExportedLint D) → Except Panic (List (ExportedLint D))
  | [], lints => .ok lints
  | entry :: rest, lints =>
    match entry.lint.declared with
    | .error panic => .error panic
    | .ok rules =>
      pushLints dispatches rest
        (lints ++ [{ factory := entry.factory dispatches, language := entry.language, rules }])

def stilesLoad (dispatches : Dispatches) (groups : List (LintGroup D)) :
    Except Panic (List (ExportedLint D)) :=
  pushLints dispatches (groups.flatMap LintGroup.entries) []

/-! ## Loading -/

/-- A library that was compiled from a crate with `export_lints!`, which asks for a group. -/
structure PluginCrate (D : DecorationTypes) where
  library : FilePath
  groups : List (LintGroup D)
  groups_ne : groups ≠ []

def PluginCrate.entries (plugin : PluginCrate D) : List (GroupEntry D) :=
  plugin.groups.flatMap LintGroup.entries

/-- The library as the loader sees it when the handshake passed. -/
def PluginCrate.opened (dispatches : Dispatches) (plugin : PluginCrate D) : Library D where
  path := plugin.library
  exports := (stilesLoad dispatches plugin.groups).mapError fun panic =>
    ⟨"the plugin panicked while listing what it exports", [panic.message]⟩

/-- A lint as the loader keeps it. -/
def ExportedLint.loaded (path : FilePath) (lint : ExportedLint D) : LoadedLint D :=
  { factory := lint.factory, language := lint.language, rules := lint.rules, library := path }

/-- A library gives its lints if it exports some and each declares a rule. -/
theorem loadLibrary_ok_iff {library : Library D} {lints : List (LoadedLint D)} :
    loadLibrary library = .ok lints ↔
      ∃ exported, library.exports = .ok exported ∧ exported ≠ [] ∧
        (∀ lint ∈ exported, lint.rules ≠ []) ∧
        lints = exported.map (ExportedLint.loaded library.path) := by
  unfold loadLibrary
  cases library.exports with
  | error e => simp
  | ok exported =>
    simp only [Except.ok.injEq, exists_eq_left']
    change (if (exported.map (ExportedLint.loaded library.path)).isEmpty = true then Except.error _
      else if ((exported.map (ExportedLint.loaded library.path)).any fun lint =>
        lint.rules.isEmpty) = true then Except.error _
      else Except.ok (exported.map (ExportedLint.loaded library.path))) = Except.ok lints ↔ _
    have hany : ((exported.map (ExportedLint.loaded library.path)).any
        fun lint => lint.rules.isEmpty) = true ↔ ¬∀ lint ∈ exported, lint.rules ≠ [] := by
      simp [ExportedLint.loaded]
    rw [List.isEmpty_map]
    by_cases hempty : exported = []
    · simp [hempty]
    · have hne : exported.isEmpty = false := by simpa using hempty
      rw [hne, if_neg Bool.false_ne_true]
      by_cases hrules : ∀ lint ∈ exported, lint.rules ≠ []
      · rw [if_neg (fun h => hany.mp h hrules)]
        rw [Except.ok.injEq]
        exact ⟨fun h => ⟨hempty, hrules, h.symm⟩, fun h => h.2.2.symm⟩
      · rw [if_pos (hany.mpr hrules)]
        simp [hrules]

/-- What the loader keeps of an entry. -/
structure LoadedFrom (dispatches : Dispatches) (entry : GroupEntry D) (lint : LoadedLint D) :
    Prop where
  factory : lint.factory = entry.factory dispatches
  language : lint.language = entry.language
  rules : entry.lint.declared = .ok lint.rules

/-- What `__stiles_load` hands over for an entry. -/
structure ExportedFrom (dispatches : Dispatches) (entry : GroupEntry D) (lint : ExportedLint D) :
    Prop where
  factory : lint.factory = entry.factory dispatches
  language : lint.language = entry.language
  rules : entry.lint.declared = .ok lint.rules

theorem pushLints_ok {dispatches : Dispatches} {entries : List (GroupEntry D)}
    {before exported : List (ExportedLint D)}
    (h : pushLints dispatches entries before = .ok exported) :
    ∃ pushed, exported = before ++ pushed ∧
      List.Forall₂ (ExportedFrom dispatches) entries pushed := by
  induction entries generalizing before with
  | nil =>
    rw [pushLints, Except.ok.injEq] at h
    exact ⟨[], by rw [h, List.append_nil], .nil⟩
  | cons entry rest ih =>
    rw [pushLints] at h
    cases hdeclared : entry.lint.declared with
    | error panic =>
      rw [hdeclared] at h
      cases h
    | ok rules =>
      rw [hdeclared] at h
      obtain ⟨pushed, hexported, hall⟩ := ih h
      refine ⟨⟨entry.factory dispatches, entry.language, rules⟩ :: pushed, ?_,
        .cons ⟨rfl, rfl, hdeclared⟩ hall⟩
      rw [hexported, List.append_assoc]
      rfl

theorem pushLints_isOk (dispatches : Dispatches) {entries : List (GroupEntry D)}
    (h : ∀ entry ∈ entries, ∃ rules, entry.lint.declared = .ok rules)
    (before : List (ExportedLint D)) :
    ∃ exported, pushLints dispatches entries before = .ok exported := by
  induction entries generalizing before with
  | nil => exact ⟨before, rfl⟩
  | cons entry rest ih =>
    obtain ⟨rules, hrules⟩ := h entry List.mem_cons_self
    rw [pushLints, hrules]
    exact ih (fun entry hentry => h entry (List.mem_cons_of_mem _ hentry)) _

/-- The grammar of the macro leaves no plugin without a lint. -/
theorem PluginCrate.entries_ne (plugin : PluginCrate D) : plugin.entries ≠ [] := by
  obtain ⟨group, hgroup⟩ := List.exists_mem_of_ne_nil _ plugin.groups_ne
  obtain ⟨lint, hlint⟩ := List.exists_mem_of_ne_nil _ group.lints_ne
  have hentry : (⟨group.language, lint⟩ : GroupEntry D) ∈ plugin.entries :=
    List.mem_flatMap.mpr ⟨group, hgroup, List.mem_map_of_mem hlint⟩
  exact List.ne_nil_of_mem hentry

/-- A plugin loads, behind the handshake, if each of its lints declares a rule. -/
theorem loadLibrary_opened_iff {dispatches : Dispatches} {plugin : PluginCrate D} :
    (∃ lints, loadLibrary (plugin.opened dispatches) = .ok lints) ↔
      ∀ entry ∈ plugin.entries, ∃ rules, entry.lint.declared = .ok rules ∧ rules ≠ [] := by
  constructor
  · rintro ⟨lints, hlints⟩ entry hentry
    obtain ⟨exported, hexports, -, hrules, -⟩ := loadLibrary_ok_iff.mp hlints
    obtain ⟨pushed, hpushed, hall⟩ := pushLints_ok (mapError_eq_ok.mp hexports)
    rw [List.nil_append] at hpushed
    subst hpushed
    obtain ⟨i, hi, rfl⟩ := List.getElem_of_mem hentry
    have hi' : i < exported.length := hall.length_eq ▸ hi
    have hfrom := (List.forall₂_iff_get.mp hall).2 i hi hi'
    exact ⟨_, hfrom.rules, hrules _ (List.getElem_mem hi')⟩
  · intro h
    have hdeclared : ∀ entry ∈ plugin.entries, ∃ rules, entry.lint.declared = .ok rules := by
      intro entry hentry
      obtain ⟨rules, hrules, -⟩ := h entry hentry
      exact ⟨rules, hrules⟩
    obtain ⟨exported, hexported⟩ := pushLints_isOk dispatches hdeclared []
    obtain ⟨pushed, hpushed, hall⟩ := pushLints_ok hexported
    rw [List.nil_append] at hpushed
    subst hpushed
    refine ⟨_, loadLibrary_ok_iff.mpr ⟨exported, mapError_eq_ok.mpr hexported, ?_, ?_, rfl⟩⟩
    · rintro rfl
      exact plugin.entries_ne (List.forall₂_nil_right_iff.mp hall)
    · intro lint hlint
      obtain ⟨i, hi, rfl⟩ := List.getElem_of_mem hlint
      have hi' : i < plugin.entries.length := hall.length_eq ▸ hi
      have hfrom := (List.forall₂_iff_get.mp hall).2 i hi' hi
      obtain ⟨rules, hrules, hne⟩ := h _ (List.getElem_mem hi')
      have hsame : rules = exported[i].rules := Except.ok.inj (hrules.symm.trans hfrom.rules)
      exact hsame ▸ hne

/-- A library that loads keeps one lint for each entry. -/
theorem loadLibrary_opened {dispatches : Dispatches} {plugin : PluginCrate D}
    {lints : List (LoadedLint D)} (h : loadLibrary (plugin.opened dispatches) = .ok lints) :
    List.Forall₂ (LoadedFrom dispatches) plugin.entries lints := by
  obtain ⟨exported, hexports, -, -, rfl⟩ := loadLibrary_ok_iff.mp h
  obtain ⟨pushed, hpushed, hall⟩ := pushLints_ok (mapError_eq_ok.mp hexports)
  rw [List.nil_append] at hpushed
  rw [hpushed, List.forall₂_map_right_iff]
  exact hall.imp fun entry lint hlint => ⟨hlint.factory, hlint.language, hlint.rules⟩

/-- The lints of a load are those of the plugins, in order. -/
theorem loadLibraries_plugins {dispatches : Dispatches} {plugins : List (PluginCrate D)}
    {lints : List (LoadedLint D)}
    (h : loadLibraries (plugins.map (PluginCrate.opened dispatches)) = .ok lints) :
    List.Forall₂ (LoadedFrom dispatches) (plugins.flatMap PluginCrate.entries) lints := by
  induction plugins generalizing lints with
  | nil =>
    rw [List.map_nil, loadLibraries, Except.ok.injEq] at h
    rw [← h]
    exact .nil
  | cons plugin plugins ih =>
    rw [List.map_cons, loadLibraries] at h
    cases hfirst : withContext ("failed to load " ++ (plugin.opened dispatches).path.text)
      (loadLibrary (plugin.opened dispatches)) with
    | error e =>
      rw [hfirst] at h
      cases h
    | ok first =>
      rw [hfirst] at h
      cases hrest : loadLibraries (plugins.map (PluginCrate.opened dispatches)) with
      | error e =>
        rw [hrest] at h
        cases h
      | ok others =>
        rw [hrest] at h
        have hlints : first ++ others = lints := Except.ok.inj h
        rw [List.flatMap_cons, ← hlints]
        exact List.rel_append (loadLibrary_opened (withContext_eq_ok.mp hfirst)) (ih hrest)

/-! ## Instances -/

/-- The pass of a written lint in the state `state`, with its declaration. -/
def GroupEntry.toLint (dispatches : Dispatches) (entry : GroupEntry D) (rules : List RuleId)
    (state : entry.lint.State) : Lint D :=
  Lint.new (entry.lint.adapter entry.language (dispatches entry.language) state) rules

/-- The state of a written lint that was constructed for file number `k` and configured with the
    options of its rules. -/
def WrittenLint.Started (lint : WrittenLint D) (options : RuleOptions) (k : Nat)
    (rules : List RuleId) (state : lint.State) : Prop :=
  lint.declared = .ok rules ∧ ∃ fresh, lint.construct k = .ok fresh ∧
    lint.configure fresh (options.forRules rules) = (.ok (), state)

theorem WrittenLint.Started.unique {lint : WrittenLint D} {options : RuleOptions} {k : Nat}
    {rules rules' : List RuleId} {state state' : lint.State}
    (h : lint.Started options k rules state) (h' : lint.Started options k rules' state') :
    rules = rules' ∧ state = state' := by
  obtain ⟨hdeclared, fresh, hfresh, hconfigured⟩ := h
  obtain ⟨hdeclared', fresh', hfresh', hconfigured'⟩ := h'
  rw [hdeclared, Except.ok.injEq] at hdeclared'
  rw [hfresh, Except.ok.injEq] at hfresh'
  subst hdeclared' hfresh'
  rw [hconfigured] at hconfigured'
  exact ⟨rfl, (Prod.mk.inj hconfigured').2⟩

/-- What an entry is instantiated with. -/
def GroupEntry.Made (dispatches : Dispatches) (options : RuleOptions) (k : Nat)
    (entry : GroupEntry D) (made : Lint D) : Prop :=
  ∃ rules state, entry.lint.Started options k rules state ∧
    made = entry.toLint dispatches rules state

theorem made_of_instance {dispatches : Dispatches} {options : RuleOptions} {k : Nat}
    {entry : GroupEntry D} {lint : LoadedLint D} {made : Lint D}
    (hloaded : LoadedFrom dispatches entry lint) (h : InstanceOf options k lint made) :
    entry.Made dispatches options k made := by
  obtain ⟨pass, configured, hfactory, hconfigured, rfl⟩ := h
  rw [hloaded.factory, GroupEntry.factory] at hfactory
  cases hfresh : entry.lint.construct k with
  | error panic =>
    rw [hfresh] at hfactory
    cases hfactory
  | ok fresh =>
    rw [hfresh] at hfactory
    have hpass : entry.lint.adapter entry.language (dispatches entry.language) fresh = pass :=
      Except.ok.inj hfactory
    subst hpass
    obtain ⟨hanswer, hstate⟩ := Prod.mk.inj hconfigured
    refine ⟨lint.rules, (entry.lint.configure fresh (options.forRules lint.rules)).2,
      ⟨hloaded.rules, fresh, hfresh, Prod.ext hanswer rfl⟩, ?_⟩
    rw [← hstate]
    rfl

/-- The instances of a load are those of its entries, in order. -/
theorem instances_made {dispatches : Dispatches} {options : RuleOptions} {k : Nat}
    {entries : List (GroupEntry D)} {lints : List (LoadedLint D)} {passes : List (Lint D)}
    (hloaded : List.Forall₂ (LoadedFrom dispatches) entries lints)
    (h : instantiateAll options k lints = .ok passes) :
    List.Forall₂ (GroupEntry.Made dispatches options k) entries passes := by
  have hinstances := instantiateAll_eq_ok.mp h
  clear h
  induction hloaded generalizing passes with
  | nil =>
    rw [List.forall₂_nil_left_iff] at hinstances
    rw [hinstances]
    exact .nil
  | cons hlint _ ih =>
    obtain ⟨made, rest, hmade, hrest, rfl⟩ := List.forall₂_cons_left_iff.mp hinstances
    exact .cons (made_of_instance hlint hmade) (ih hrest)

/-! ## Method calls -/

/-- One call of a method of the generated trait. -/
def WrittenLint.callMethod (lint : WrittenLint D) (state : lint.State)
    (call : String × DecoratedNode D) : Except Panic (List Diagnostic) × lint.State :=
  lint.methods call.1 call.2 state

/-- The methods that a dispatch calls for the nodes, in order. -/
noncomputable def methodCalls (nodeTypes : List NodeType) (nodes : List (DecoratedNode D)) :
    List (String × DecoratedNode D) :=
  nodes.flatMap fun node =>
    (expectedCalls nodeTypes node.kind).map fun method => (method, node)

theorem performCalls_eq_perform (methods : Methods D σ) (node : DecoratedNode D)
    (names : List String) (state : σ) (diagnostics : List Diagnostic) :
    performCalls methods node names state diagnostics =
      perform (fun state method => methods method node state) names state diagnostics := by
  induction names generalizing state diagnostics with
  | nil => rfl
  | cons method names ih =>
    rw [performCalls, Codegen.extend, perform]
    generalize methods method node state = called
    obtain ⟨answer, state'⟩ := called
    cases answer with
    | error panic => rfl
    | ok found => exact ih state' (diagnostics ++ found)

/-- A visit of one node is the calls of the methods that the dispatch names. -/
theorem adapter_checkNodeOf {nodeTypes : List NodeType} (hunique : (Codegen.kinds nodeTypes).Nodup)
    {fuel : Nat} {dispatch : List MatchKind}
    (hdispatch : Codegen.dispatchOf fuel nodeTypes = some dispatch) (lint : WrittenLint D)
    (language : Language) (fresh state : lint.State) (node : DecoratedNode D) :
    (lint.adapter language dispatch fresh).checkNodeOf state node =
      perform lint.callMethod
        ((expectedCalls nodeTypes node.kind).map fun method => (method, node)) state [] := by
  show execDispatch lint.methods node dispatch state [] = _
  rw [Codegen.execDispatch_eq, Codegen.calls_dispatchOf hunique hdispatch, performCalls_eq_perform,
    ← Calls.perform_map]
  rfl

/-- A lint of the plugin answers a node with what its pass found, if the pass declared it. -/
theorem checkAt_toLint (dispatches : Dispatches) (entry : GroupEntry D) (rules : List RuleId)
    (state : entry.lint.State) (node : DecoratedNode D) :
    let visited :=
      (entry.lint.adapter entry.language (dispatches entry.language) state).checkNodeOf state node
    checkAt (some (entry.toLint dispatches rules state)) node =
      (Lint.judge (.Rules rules) node (visited.1.mapError fun panic =>
        .Panicked ⟨node.kind, node.span, panic⟩),
        some (entry.toLint dispatches rules visited.2)) := by
  intro visited
  have hanswer : ((Lint.unchecked (entry.toLint dispatches rules state).pass).checkNode node).1 =
      visited.1.mapError fun panic => .Panicked ⟨node.kind, node.span, panic⟩ := by
    have hchecked : (entry.toLint dispatches rules state).pass.checkNode node =
        (visited.1, entry.lint.adapter entry.language (dispatches entry.language) visited.2) := rfl
    unfold Lint.checkNode Lint.unchecked
    dsimp only
    rw [hchecked]
    cases visited.1 <;> rfl
  rw [checkAt, Lint.checkNode_eq]
  exact Prod.ext (congrArg (Lint.judge (.Rules rules) node) hanswer) rfl

/-- The diagnostics of a list are all under rules in `rules`. -/
def Declares (rules : List RuleId) (found : List Diagnostic) : Prop :=
  ∀ d ∈ found, d.ruleId ∈ rules

theorem declares_append {rules : List RuleId} {found rest : List Diagnostic} :
    Declares rules (found ++ rest) ↔ Declares rules found ∧ Declares rules rest :=
  List.forall_mem_append

/-- A lint that is called for the nodes succeeds exactly if its method calls do and find nothing
    but declared rules, and it finds what they find. -/
theorem solo_toLint {nodeTypes : List NodeType} (hunique : (Codegen.kinds nodeTypes).Nodup)
    {fuel : Nat} {dispatches : Dispatches} {entry : GroupEntry D}
    (hdispatch : Codegen.dispatchOf fuel nodeTypes = some (dispatches entry.language))
    (rules : List RuleId) (nodes : List (DecoratedNode D)) (state : entry.lint.State)
    (found : List Diagnostic) :
    (Succeeds (solo checkAt (some (entry.toLint dispatches rules state)) nodes) ∧
        found = Calls.collected (solo checkAt (some (entry.toLint dispatches rules state)) nodes)) ↔
      (perform entry.lint.callMethod (methodCalls nodeTypes nodes) state []).1 = .ok found ∧
        Declares rules found := by
  induction nodes generalizing state found with
  | nil =>
    simp only [solo, Succeeds, Calls.collected, methodCalls, perform, List.flatMap_nil,
      List.not_mem_nil, false_implies, implies_true, true_and, Except.ok.injEq]
    constructor
    · rintro rfl
      exact ⟨rfl, fun d hd => absurd hd List.not_mem_nil⟩
    · rintro ⟨rfl, -⟩
      rfl
  | cons node nodes ih =>
    have hcall := checkAt_toLint dispatches entry rules state node
    rw [adapter_checkNodeOf hunique hdispatch] at hcall
    rw [solo, hcall, methodCalls, List.flatMap_cons, Calls.perform_append, ← methodCalls]
    generalize perform entry.lint.callMethod
      ((expectedCalls nodeTypes node.kind).map fun method => (method, node)) state [] = visited
    obtain ⟨answer, state'⟩ := visited
    cases answer with
    | error panic =>
      simp only [Except.mapError, Lint.judge_error, reduceCtorEq, false_and, iff_false]
      exact fun h => Calls.not_succeeds_cons_error h.1
    | ok ds =>
      simp only [Except.mapError]
      rw [Calls.perform_out, Calls.map_append_eq_ok]
      by_cases hdeclares : Declares rules ds
      · have hjudged : Lint.judge (.Rules rules) node (.ok ds) = .ok ds :=
          Lint.judge_ok_iff.mpr ⟨rfl, fun d hd => List.contains_iff_mem.mpr (hdeclares d hd)⟩
        rw [hjudged, Calls.succeeds_cons_ok, Calls.collected_cons_ok]
        constructor
        · rintro ⟨hall, rfl⟩
          obtain ⟨hrest, hrules⟩ := (ih state' _).mp ⟨hall, rfl⟩
          exact ⟨⟨_, hrest, rfl⟩, declares_append.mpr ⟨hdeclares, hrules⟩⟩
        · rintro ⟨⟨others, hothers, rfl⟩, hrules⟩
          obtain ⟨hall, hcollected⟩ := (ih state' others).mpr
            ⟨hothers, (declares_append.mp hrules).2⟩
          exact ⟨hall, congrArg _ hcollected⟩
      · constructor
        · rintro ⟨hall, -⟩
          obtain ⟨ds', hds'⟩ := hall _ List.mem_cons_self
          have hpermits := (Lint.judge_ok_iff.mp hds').2
          exact absurd (fun d hd => List.contains_iff_mem.mp (hpermits d hd)) hdeclares
        · rintro ⟨⟨others, -, rfl⟩, hrules⟩
          exact absurd (declares_append.mp hrules).1 hdeclares

/-! ## Which nodes a method is called for -/

/-- A dispatch that was generated from node types of which each kind stands once and has a method
    of its own. -/
structure Generated (nodeTypes : List NodeType) (dispatch : List MatchKind) : Prop where
  unique : (Codegen.kinds nodeTypes).Nodup
  methods : Codegen.MethodsDiffer nodeTypes
  generated : ∃ fuel, Codegen.dispatchOf fuel nodeTypes = some dispatch

theorem filter_methodCalls {nodeTypes : List NodeType} {method : String} (p : String → Prop)
    [DecidablePred p]
    (h : ∀ kind, (expectedCalls nodeTypes kind).count method = if p kind then 1 else 0)
    (nodes : List (DecoratedNode D)) :
    ((methodCalls nodeTypes nodes).filter fun call => call.1 = method).map Prod.snd =
      nodes.filter fun node => p node.kind := by
  have hone : ∀ node : DecoratedNode D,
      (((expectedCalls nodeTypes node.kind).map fun m => (m, node)).filter
        fun call => call.1 = method).map Prod.snd = if p node.kind then [node] else [] := by
    intro node
    have hfilter : (expectedCalls nodeTypes node.kind).filter
        ((fun call : String × DecoratedNode D => decide (call.1 = method)) ∘ fun m => (m, node)) =
        List.replicate ((expectedCalls nodeTypes node.kind).count method) method :=
      List.filter_eq method
    rw [List.filter_map, List.map_map, hfilter, h, List.map_replicate]
    split <;> rfl
  induction nodes with
  | nil => rfl
  | cons node nodes ih =>
    rw [methodCalls, List.flatMap_cons, List.filter_append, List.map_append, hone, ← methodCalls,
      ih, List.filter_cons]
    by_cases hp : p node.kind
    · rw [if_pos hp, if_pos (decide_eq_true hp)]
      rfl
    · rw [if_neg hp, if_neg (fun h => hp (of_decide_eq_true h))]
      rfl

open scoped Classical in
/-- The method of a kind without subtypes is called for the nodes of the kind, and the method of a
    supertype for those of the kinds below it, each in the order of the nodes. -/
theorem methodCalls_of_method {nodeTypes : List NodeType} {dispatch : List MatchKind}
    (h : Generated nodeTypes dispatch) (nodes : List (DecoratedNode D)) :
    (∀ nodeType ∈ Codegen.concreteNodes nodeTypes,
      ((methodCalls nodeTypes nodes).filter
          fun call => call.1 = methodName nodeType.kind).map Prod.snd =
        nodes.filter fun node => node.kind = nodeType.kind) ∧
    ∀ supertype ∈ Codegen.supertypes nodeTypes,
      ((methodCalls nodeTypes nodes).filter
          fun call => call.1 = methodName supertype.kind).map Prod.snd =
        nodes.filter fun node => Codegen.IsConcrete nodeTypes node.kind ∧
          Relation.TransGen (Codegen.Contains nodeTypes) supertype.kind node.kind := by
  constructor
  · intro nodeType hnodeType
    refine filter_methodCalls (fun kind => kind = nodeType.kind) (fun kind => ?_) nodes
    rw [(Codegen.nodup_expectedCalls h.unique h.methods kind).count,
      if_congr (Codegen.mem_expectedCalls_concrete h.unique h.methods hnodeType kind) rfl rfl,
      if_congr eq_comm rfl rfl]
  · intro supertype hsuper
    refine filter_methodCalls (fun kind => Codegen.IsConcrete nodeTypes kind ∧
      Relation.TransGen (Codegen.Contains nodeTypes) supertype.kind kind) (fun kind => ?_) nodes
    rw [(Codegen.nodup_expectedCalls h.unique h.methods kind).count,
      if_congr (Codegen.mem_expectedCalls_supertype h.unique h.methods hsuper kind) rfl rfl]

/-! ## A walk over the instances -/

/-- A walk succeeds exactly if every lint that takes part succeeds alone. -/
theorem walkLints_succeeds_iff (tree : DecoratedTree D) (lints : List (Lint D)) :
    (∃ ds, (walkLints tree lints).result = .ok ds) ↔
      ∀ (i : Nat) (lint : Lint D), lints[i]? = some lint → lint.language = tree.language →
        Succeeds (solo checkAt (some lint) tree.reached) := by
  have hstop : (∃ ds, (walkLints tree lints).result = .ok ds) ↔
      Calls.stop (walkLints tree lints).calls = none := by
    simp only [walkLints_ok_iff]
    exact ⟨fun h => h.choose_spec.1, fun h => ⟨_, h, rfl⟩⟩
  rw [hstop, walkLints_calls, walkRun, Calls.stop_runCalls_iff]
  refine forall_congr' fun i => ?_
  have hargs : Calls.argsFor i (callOrder tree lints) =
      if i ∈ takingPart tree lints then tree.reached else [] := callOrder_filter tree lints i
  rw [hargs]
  cases hlint : lints[i]? with
  | none =>
    have hnot : i ∉ takingPart tree lints := by
      rw [mem_takingPart, hlint]
      simp
    rw [if_neg hnot]
    simp [solo, Succeeds]
  | some lint =>
    simp only [Option.some.injEq, forall_eq']
    rw [if_congr (takingPart_iff hlint) rfl rfl]
    by_cases hlanguage : lint.language = tree.language
    · rw [if_pos hlanguage]
      exact ⟨fun h _ => h, fun h => h hlanguage⟩
    · rw [if_neg hlanguage]
      simp [hlanguage, solo, Succeeds]

/-- In a walk that succeeds, a lint contributes what it finds alone. -/
theorem contributed_eq {tree : DecoratedTree D} {lints : List (Lint D)} {ds : List Diagnostic}
    (h : (walkLints tree lints).result = .ok ds) {i : Nat} {lint : Lint D}
    (hlint : lints[i]? = some lint) :
    contributed i (walkLints tree lints).calls =
      Calls.collected (solo checkAt (some lint)
        (if lint.language = tree.language then tree.reached else [])) := by
  have hstop := (walkLints_ok_iff.mp h).1
  have hanswers := answersOf_walkLints tree lints i
  rw [argsOf_walkLints hstop, hlint, if_congr (takingPart_iff hlint) rfl rfl] at hanswers
  rw [← hanswers]
  exact Calls.findings_filter i _

open scoped Classical in
/-- What a plugin's author may count on. The entries of the plugins are the instances of a run, in
    order. Each lint of the tree's language gets, alone and in order, the method calls that the
    dispatch of its language makes for the named nodes of the tree; the walk succeeds exactly if no
    lint panics or finds a rule that it did not declare, and then each contributes what its calls
    found. A method is called for the nodes of its kind, or of the kinds below it, and no others. -/
theorem written_lints_run (nodeTypes : Language → List NodeType) (dispatches : Dispatches)
    (hgenerated : ∀ language, Generated (nodeTypes language) (dispatches language))
    (plugins : List (PluginCrate D)) (lints : List (LoadedLint D))
    (hload : loadLibraries (plugins.map (PluginCrate.opened dispatches)) = .ok lints)
    (options : RuleOptions) (k : Nat) (passes : List (Lint D))
    (hinstances : (CustomLints.mk lints).instantiate options k = .ok passes)
    (tree : DecoratedTree D) (hnamed : tree.rootNode.1.NamedThroughNamed) :
    let entries := plugins.flatMap PluginCrate.entries
    let walked := walkLints tree passes
    let calls := methodCalls (nodeTypes tree.language) tree.namedNodes
    (∀ (i : Nat) (entry : GroupEntry D), entries[i]? = some entry → ∃ rules state,
      entry.lint.Started options k rules state ∧
      passes[i]? = some (entry.toLint dispatches rules state)) ∧
    entries.length = passes.length ∧
    ((∃ ds, walked.result = .ok ds) ↔
      ∀ entry ∈ entries, entry.language = tree.language →
        ∀ rules state, entry.lint.Started options k rules state →
          ∃ found, (perform entry.lint.callMethod calls state []).1 = .ok found ∧
            Declares rules found) ∧
    (∀ ds, walked.result = .ok ds → ∀ i entry, entries[i]? = some entry →
      (entry.language = tree.language → ∀ rules state,
        entry.lint.Started options k rules state →
          (perform entry.lint.callMethod calls state []).1 =
            .ok (contributed i walked.calls)) ∧
      (entry.language ≠ tree.language → contributed i walked.calls = [])) ∧
    (∀ nodeType ∈ Codegen.concreteNodes (nodeTypes tree.language),
      (calls.filter fun call => call.1 = methodName nodeType.kind).map Prod.snd =
        tree.namedNodes.filter fun node => node.kind = nodeType.kind) ∧
    ∀ supertype ∈ Codegen.supertypes (nodeTypes tree.language),
      (calls.filter fun call => call.1 = methodName supertype.kind).map Prod.snd =
        tree.namedNodes.filter fun node =>
          Codegen.IsConcrete (nodeTypes tree.language) node.kind ∧
          Relation.TransGen (Codegen.Contains (nodeTypes tree.language)) supertype.kind
            node.kind := by
  intro entries walked calls
  have hmade := instances_made (loadLibraries_plugins hload) hinstances
  have hat : ∀ (i : Nat) (entry : GroupEntry D), entries[i]? = some entry → ∃ rules state,
      entry.lint.Started options k rules state ∧
      passes[i]? = some (entry.toLint dispatches rules state) := by
    intro i entry hentry
    obtain ⟨hi, rfl⟩ := List.getElem?_eq_some_iff.mp hentry
    have hi' : i < passes.length := hmade.length_eq ▸ hi
    obtain ⟨rules, state, hstarted, hpass⟩ := (List.forall₂_iff_get.mp hmade).2 i hi hi'
    exact ⟨rules, state, hstarted, (List.getElem?_eq_getElem hi').trans (congrArg some hpass)⟩
  have hsolo : ∀ (entry : GroupEntry D), entry.language = tree.language → ∀ rules state found,
      (Succeeds (solo checkAt (some (entry.toLint dispatches rules state)) tree.namedNodes) ∧
        found = Calls.collected
          (solo checkAt (some (entry.toLint dispatches rules state)) tree.namedNodes)) ↔
      (perform entry.lint.callMethod calls state []).1 = .ok found ∧ Declares rules found := by
    intro entry hlanguage rules state found
    obtain ⟨fuel, hdispatch⟩ := (hgenerated tree.language).generated
    rw [← hlanguage] at hdispatch
    have hrun := solo_toLint (hgenerated entry.language).unique hdispatch rules tree.namedNodes
      state found
    rw [hlanguage] at hrun
    exact hrun
  have hreached := reached_eq_namedNodes tree hnamed
  refine ⟨hat, hmade.length_eq, ?_, ?_, methodCalls_of_method (hgenerated tree.language) _⟩
  · rw [walkLints_succeeds_iff, hreached]
    constructor
    · intro hall entry hentry hlanguage rules state hstarted
      obtain ⟨i, hi⟩ := List.getElem?_of_mem hentry
      obtain ⟨rules', state', hstarted', hpass⟩ := hat i entry hi
      obtain ⟨rfl, rfl⟩ := hstarted.unique hstarted'
      exact ⟨_, (hsolo entry hlanguage rules state _).mp ⟨hall i _ hpass hlanguage, rfl⟩⟩
    · intro hall i lint hlint hlanguage
      obtain ⟨hi, -⟩ := List.getElem?_eq_some_iff.mp hlint
      rw [← hmade.length_eq] at hi
      obtain ⟨rules, state, hstarted, hpass⟩ := hat i _ (List.getElem?_eq_getElem hi)
      rw [hpass, Option.some.injEq] at hlint
      subst hlint
      obtain ⟨found, hfound⟩ := hall _ (List.getElem_mem hi) hlanguage rules state hstarted
      exact ((hsolo _ hlanguage rules state found).mpr hfound).1
  · intro ds hds i entry hentry
    obtain ⟨rules, state, hstarted, hpass⟩ := hat i entry hentry
    have hcontributed := contributed_eq hds hpass
    rw [show (entry.toLint dispatches rules state).language = entry.language from rfl]
      at hcontributed
    constructor
    · intro hlanguage rules' state' hstarted'
      obtain ⟨rfl, rfl⟩ := hstarted'.unique hstarted
      have hsucceeds := (walkLints_succeeds_iff tree passes).mp ⟨ds, hds⟩ i _ hpass hlanguage
      rw [if_pos hlanguage, hreached] at hcontributed
      rw [hreached] at hsucceeds
      exact ((hsolo entry hlanguage _ _ _).mp ⟨hsucceeds, hcontributed⟩).1
    · intro hlanguage
      rw [if_neg hlanguage] at hcontributed
      exact hcontributed

/-- Every integer literal under its number, from a pass that counts them. -/
def literalLint : WrittenLint noteTypes where
  State := Nat
  construct _ := .ok 0
  declared := .ok [⟨"lint.literal"⟩]
  configure n _ := (.ok (), n)
  methods method node n :=
    if method = "check_integer_literal" then
      (.ok [Diagnostic.new ⟨"lint.literal"⟩ .Warn (toString n) node.span], n + 1)
    else (.ok [], n)

def literalPlugin : PluginCrate noteTypes where
  library := ⟨"liblints.so"⟩
  groups := [⟨.Rust, [literalLint], List.cons_ne_nil _ _⟩]
  groups_ne := List.cons_ne_nil _ _

/-- `[7, 8]`. -/
def literalFile : DecoratedTree noteTypes :=
  DecoratedTree.new
    (.node ⟨0, "array_expression", true, 0, 6, by decide⟩
      [.node ⟨1, "integer_literal", true, 1, 2, by decide⟩ [],
       .node ⟨2, ",", false, 2, 3, by decide⟩ [],
       .node ⟨3, "integer_literal", true, 4, 5, by decide⟩ []])
    .Rust "[7, 8]" ⟨"src/lib.rs"⟩

/-- A plugin whose only lint counts literals is called for the two literals of the file, and the
    walk reports both. -/
theorem written_lints_run_literals :
    ∃ statements : List MatchKind,
      let dispatches : Dispatches := fun _ => statements
      ∃ lints passes, loadLibraries [literalPlugin.opened dispatches] = .ok lints ∧
        (CustomLints.mk lints).instantiate ⟨[]⟩ 0 = .ok passes ∧
        ((methodCalls Codegen.nestedSupertypes literalFile.namedNodes).filter
            fun call => call.1 = "check_integer_literal").map (fun call => call.2.id) = [1, 3] ∧
        (contributed 0 (walkLints literalFile passes).calls).map Diagnostic.message =
          ["0", "1"] := by
  obtain ⟨statements, hstatements⟩ := Option.isSome_iff_exists.mp
    (show (Codegen.dispatchOf 3 Codegen.nestedSupertypes).isSome by decide)
  have hgenerated : Generated Codegen.nestedSupertypes statements :=
    ⟨by decide, by unfold Codegen.MethodsDiffer; decide, 3, hstatements⟩
  refine ⟨statements, _, _, rfl, rfl, ?_, ?_⟩
  · have hrun := written_lints_run (fun _ => Codegen.nestedSupertypes) (fun _ => statements)
      (fun _ => hgenerated) [literalPlugin] _ rfl ⟨[]⟩ 0 _ rfl literalFile (by decide)
    have hcalls := hrun.2.2.2.2.1 ⟨"integer_literal", true, []⟩ (by decide)
    have hids := congrArg (List.map DecoratedNode.id) hcalls
    rw [List.map_map] at hids
    exact hids.trans (by decide)
  · cases hstatements
    decide

end Stiles
