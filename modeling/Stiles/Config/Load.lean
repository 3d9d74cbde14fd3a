import Stiles.Check.Run
import Stiles.Config.RulesTable
import Stiles.CustomLints.Sources

/-
  Reading a project's configuration (`StilesConfig::load` in `config.rs`).

  kawauso finds the project and reads its file into a `ConfigTable`; `load` turns the table into
  sources, a rule filter and options. An entry of `[[lints]]` has three optional keys, and
  `Describes` is what they may name together.

  * `readLints_ok_iff`, `readLints_error_iff`: the entries are read in order, up to the first one
    that describes no source.
  * `load_reads`: which tables are accepted, what is read from them, what a refusal names, and that
    it never tells one remote from another.
-/

namespace Stiles

open Resolve (LintSource)

/-! ## The file -/

/-- One `[[lints]]` entry as written on disk. -/
structure LintEntry where
  path : Option String
  git : Option String
  rev : Option String
deriving DecidableEq, Repr

/-- The `[rules]` table as written on disk. -/
structure RulesTable where
  enable : List String
  disable : List String
  options : OptionsTable

/-- The configuration file as written on disk. -/
structure ConfigTable where
  ignore : List String
  lints : List LintEntry
  rules : RulesTable
  stilesSource : Option String

/-- A project as kawauso finds it from a path. -/
structure Project where
  root : FilePath
  configurationPath : String
  configuration : Option ConfigTable

/-- What a load asks of kawauso, gitoxide and the formatter of `{:?}`. -/
structure ConfigHost where
  project : FilePath → AnyhowResult Project
  parseUrl : String → Option GitUrl
  quoted : String → String

/-! ## Reading it -/

variable (host : ConfigHost)

/-- `GitUrl::new`: the parser's error is left out, since it can quote the remote. -/
def GitUrl.new (url : String) : AnyhowResult GitUrl :=
  match host.parseUrl url with
  | some url => .ok url
  | none => .error (.msg "cannot read the git remote")

def GitRev.new (rev : String) : AnyhowResult GitRev :=
  if rev.utf8ByteSize ≠ HASH_LENGTH then
    .error (.msg ("git revision " ++ host.quoted rev ++ " does not have 40 characters"))
  else if h : isHash rev = true then .ok ⟨rev, h⟩
  else
    .error (.msg ("git revision " ++ host.quoted rev ++
      " contains characters that are not lowercase hexadecimal"))

def LintEntry.toSource (entry : LintEntry) : AnyhowResult LintSource :=
  match entry.path, entry.git, entry.rev with
  | some _, some _, _ => .error (.msg "can only define either path or git, not both")
  | some _, none, some _ => .error (.msg "can only define rev with git, not with path")
  | some path, none, none => .ok (.Path ⟨path⟩)
  | none, some git, some rev =>
    match withContext "failed to read the git remote of a lint" (GitUrl.new host git) with
    | .error e => .error e
    | .ok url =>
      match withContext "failed to read the rev of a lint" (GitRev.new host rev) with
      | .error e => .error e
      | .ok rev => .ok (.Git { url, rev })
  | none, some _, none => .error (.msg "must define rev with git")
  | none, none, some _ => .error (.msg "must define git with rev")
  | none, none, none => .error (.msg "must define either path, or git and rev")

/-- The entries from number `index` on, up to the first that fails. -/
def readLints : Nat → List LintEntry → AnyhowResult (List LintSource)
  | _, [] => .ok []
  | index, entry :: rest =>
    match withContext ("failed to read [[lints]] entry " ++ (index + 1).repr)
      (entry.toSource host) with
    | .error e => .error e
    | .ok source =>
      match readLints (index + 1) rest with
      | .error e => .error e
      | .ok sources => .ok (source :: sources)

/-- A configuration with the parts that the loading of the lints reads. -/
structure LoadedConfig where
  config : StilesConfig
  lints : List LintSource
  stilesSource : Option FilePath

/-- The configuration that a table of a project gives. -/
def readTable (project : Project) (table : ConfigTable) : AnyhowResult LoadedConfig :=
  match withContext ("failed to read " ++ project.configurationPath)
    (RuleFilter.new table.rules.enable table.rules.disable) with
  | .error e => .error e
  | .ok rules =>
    match withContext ("failed to read " ++ project.configurationPath)
      (readLints host 0 table.lints) with
    | .error e => .error e
    | .ok lints =>
      .ok
        { config :=
            { root := project.root
              ignore := table.ignore.map IgnorePattern.mk
              rules
              options := readOptions table.rules.options }
          lints
          stilesSource := table.stilesSource.map fun directory => project.root.join ⟨directory⟩ }

def StilesConfig.load (path : FilePath) : AnyhowResult LoadedConfig :=
  match host.project path with
  | .error e => .error e
  | .ok project =>
    match project.configuration with
    | none =>
      .ok
        { config := { root := project.root, ignore := [], rules := .All, options := ⟨[]⟩ }
          lints := []
          stilesSource := none }
    | some table => readTable host project table

/-! ## The sources -/

/-- What the keys of an entry name together. -/
inductive Describes : LintEntry → LintSource → Prop where
  | path (path : String) : Describes ⟨some path, none, none⟩ (.Path ⟨path⟩)
  | git (remote : String) (url : GitUrl) (rev : GitRev) (hurl : host.parseUrl remote = some url) :
    Describes ⟨none, some remote, some rev.text⟩ (.Git { url, rev })

variable {host}

theorem gitRev_new_ok {text : String} {rev : GitRev} :
    GitRev.new host text = .ok rev ↔ text = rev.text := by
  unfold GitRev.new
  constructor
  · intro h
    split at h
    · cases h
    · split at h
      · rw [← Except.ok.inj h]
      · cases h
  · intro h
    have hhash : isHash text = true := h ▸ rev.accepted
    have hlength : text.utf8ByteSize = HASH_LENGTH := by
      have hboth := hhash
      rw [isHash, Bool.and_eq_true, decide_eq_true_eq] at hboth
      exact hboth.1
    rw [if_neg (not_not.mpr hlength), dif_pos hhash]
    cases rev
    cases h
    rfl

theorem gitUrl_new_ok {text : String} {url : GitUrl} :
    GitUrl.new host text = .ok url ↔ host.parseUrl text = some url := by
  unfold GitUrl.new
  cases host.parseUrl text <;> simp

theorem toSource_ok_iff {entry : LintEntry} {source : LintSource} :
    entry.toSource host = .ok source ↔ Describes host entry source := by
  constructor
  · intro h
    obtain ⟨path, git, rev⟩ := entry
    cases path with
    | some path =>
      cases git with
      | some git => cases h
      | none =>
        cases rev with
        | some rev => cases h
        | none =>
          obtain rfl := Except.ok.inj h
          exact .path path
    | none =>
      cases git with
      | none => cases rev <;> cases h
      | some git =>
        cases rev with
        | none => cases h
        | some rev =>
          unfold LintEntry.toSource at h
          dsimp only at h
          split at h
          · cases h
          · rename_i url hurl
            split at h
            · cases h
            · rename_i pin hpin
              obtain rfl := Except.ok.inj h
              obtain rfl := gitRev_new_ok.mp (withContext_eq_ok.mp hpin)
              exact .git git url pin (gitUrl_new_ok.mp (withContext_eq_ok.mp hurl))
  · intro h
    cases h with
    | path path => rfl
    | git remote url rev hurl =>
      unfold LintEntry.toSource
      dsimp only
      rw [gitUrl_new_ok.mpr hurl, gitRev_new_ok.mpr rfl]
      rfl

theorem readLints_ok_iff {entries : List LintEntry} {sources : List LintSource} {index : Nat} :
    readLints host index entries = .ok sources ↔
      List.Forall₂ (Describes host) entries sources := by
  induction entries generalizing sources index with
  | nil =>
    rw [readLints, List.forall₂_nil_left_iff, Except.ok.injEq, eq_comm]
  | cons entry rest ih =>
    rw [readLints]
    cases hentry : entry.toSource host with
    | error e =>
      simp only [withContext_error, reduceCtorEq, false_iff]
      intro h
      cases h with
      | cons hdescribes _ =>
        rw [toSource_ok_iff.mpr hdescribes] at hentry
        cases hentry
    | ok source =>
      have hfirst : ∀ other, Describes host entry other ↔ other = source := by
        intro other
        rw [← toSource_ok_iff, hentry, Except.ok.injEq, eq_comm]
      dsimp only [withContext_ok]
      cases hrest : readLints host (index + 1) rest with
      | error e =>
        simp only [reduceCtorEq, false_iff]
        intro h
        cases h with
        | cons _ hdescribes =>
          rw [ih.mpr hdescribes] at hrest
          cases hrest
      | ok found =>
        dsimp only
        rw [Except.ok.injEq]
        constructor
        · intro h
          rw [← h]
          exact .cons ((hfirst source).mpr rfl) (ih.mp hrest)
        · intro h
          cases h with
          | cons hdescribes hothers =>
            rw [(hfirst _).mp hdescribes, Except.ok.inj (hrest.symm.trans (ih.mpr hothers))]

/-- The first entry that describes no source, with what is wrong with it. -/
def FirstBad (host : ConfigHost) (entries : List LintEntry) (number : Nat) (cause : Anyhow) : Prop :=
  ∃ before entry rest, entries = before ++ entry :: rest ∧ number = before.length + 1 ∧
    (∀ other ∈ before, ∃ source, Describes host other source) ∧
    entry.toSource host = .error cause

theorem readLints_error_iff {entries : List LintEntry} {e : Anyhow} {index : Nat} :
    readLints host index entries = .error e ↔ ∃ number cause, FirstBad host entries number cause ∧
      e = cause.context ("failed to read [[lints]] entry " ++ (index + number).repr) := by
  induction entries generalizing index e with
  | nil =>
    simp only [readLints, reduceCtorEq, false_iff]
    intro h
    obtain ⟨_, _, ⟨before, entry, rest, hsplit, _⟩, _⟩ := h
    cases before <;> cases hsplit
  | cons entry rest ih =>
    rw [readLints]
    cases hentry : entry.toSource host with
    | error cause =>
      rw [withContext_error]
      dsimp only
      rw [Except.error.injEq]
      constructor
      · intro h
        exact ⟨1, cause, ⟨[], entry, rest, rfl, rfl, nofun, hentry⟩, h.symm⟩
      · intro h
        obtain ⟨number, cause', ⟨before, bad, later, hsplit, rfl, hbefore, hbad⟩, rfl⟩ := h
        cases before with
        | nil =>
          obtain ⟨rfl, -⟩ := List.cons.inj hsplit
          rw [Except.error.inj (hentry.symm.trans hbad)]
          rfl
        | cons first before =>
          obtain ⟨rfl, -⟩ := List.cons.inj hsplit
          obtain ⟨source, hsource⟩ := hbefore _ List.mem_cons_self
          rw [toSource_ok_iff.mpr hsource] at hentry
          cases hentry
    | ok source =>
      have hrest : readLints host index (entry :: rest) = .error e ↔
          readLints host (index + 1) rest = .error e := by
        rw [readLints, hentry, withContext_ok]
        dsimp only
        cases readLints host (index + 1) rest <;> simp
      rw [readLints, hentry] at hrest
      rw [hrest, ih]
      constructor
      · intro h
        obtain ⟨number, cause, ⟨before, bad, later, rfl, rfl, hbefore, hbad⟩, rfl⟩ := h
        refine ⟨before.length + 2, cause, ⟨entry :: before, bad, later, rfl, rfl, ?_, hbad⟩, ?_⟩
        · exact List.forall_mem_cons.mpr ⟨⟨source, toSource_ok_iff.mp hentry⟩, hbefore⟩
        · rw [show index + 1 + (before.length + 1) = index + (before.length + 2) by omega]
      · intro h
        obtain ⟨number, cause, ⟨before, bad, later, hsplit, rfl, hbefore, hbad⟩, rfl⟩ := h
        cases before with
        | nil =>
          obtain ⟨rfl, -⟩ := List.cons.inj hsplit
          rw [hentry] at hbad
          cases hbad
        | cons first before =>
          obtain ⟨rfl, rfl⟩ := List.cons.inj hsplit
          refine ⟨before.length + 1, cause,
            ⟨before, bad, later, rfl, rfl, (List.forall_mem_cons.mp hbefore).2, hbad⟩, ?_⟩
          rw [List.length_cons,
            show index + 1 + (before.length + 1) = index + (before.length + 1 + 1) by omega]

/-- The entries describe a list of sources if each describes one. -/
theorem describes_all_iff {entries : List LintEntry} :
    (∃ sources, List.Forall₂ (Describes host) entries sources) ↔
      ∀ entry ∈ entries, ∃ source, Describes host entry source := by
  induction entries with
  | nil => exact ⟨fun _ => nofun, fun _ => ⟨[], .nil⟩⟩
  | cons entry rest ih =>
    rw [List.forall_mem_cons, ← ih]
    constructor
    · intro h
      obtain ⟨_, hall⟩ := h
      cases hall with
      | cons hentry hrest => exact ⟨⟨_, hentry⟩, _, hrest⟩
    · intro h
      obtain ⟨⟨source, hentry⟩, sources, hrest⟩ := h
      exact ⟨source :: sources, .cons hentry hrest⟩

/-! ## The table -/

/-- The table does not contradict itself, and each entry describes a source. -/
structure ConfigTable.Accepted (host : ConfigHost) (table : ConfigTable) : Prop where
  rules : table.rules.enable = [] ∨ table.rules.disable = []
  lints : ∀ entry ∈ table.lints, ∃ source, Describes host entry source

/-- What a configuration says of the table it was read from. -/
structure Reads (host : ConfigHost) (project : Project) (table : ConfigTable)
    (loaded : LoadedConfig) : Prop where
  root : loaded.config.root = project.root
  ignore : loaded.config.ignore.map IgnorePattern.pattern = table.ignore
  sources : List.Forall₂ (Describes host) table.lints loaded.lints
  admits : ∀ rule : RuleId, loaded.config.rules.admits rule = true ↔
    (table.rules.enable = [] ∨ rule.asStr ∈ table.rules.enable) ∧
      rule.asStr ∉ table.rules.disable
  named : ∀ name, name ∈ loaded.config.rules.named ↔
    name ∈ table.rules.enable ∨ name ∈ table.rules.disable
  options : ∀ (rules : List RuleId) (rule : RuleId) (name : String),
    (loaded.config.options.forRules rules).names rule name =
      if rule ∈ rules then table.rules.options.values? rule.asStr name else none
  configures : ∀ rule, (∃ option ∈ loaded.config.options.options, option.rule = rule) ↔
    table.rules.options.Configures rule

/-- Two entries that differ in their remotes at most, which gitoxide reads or refuses alike. -/
structure LintEntry.Alike (host : ConfigHost) (a b : LintEntry) : Prop where
  path : a.path = b.path
  rev : a.rev = b.rev
  git : a.git.map (fun remote => (host.parseUrl remote).isSome) =
    b.git.map fun remote => (host.parseUrl remote).isSome

theorem ruleFilter_new_ok {enable disable : List String} {rules : RuleFilter} :
    RuleFilter.new enable disable = .ok rules →
      (enable = [] ∨ disable = []) ∧
      (∀ rule : RuleId, rules.admits rule = true ↔
        (enable = [] ∨ rule.asStr ∈ enable) ∧ rule.asStr ∉ disable) ∧
      ∀ name, name ∈ rules.named ↔ name ∈ enable ∨ name ∈ disable := by
  intro h
  cases enable with
  | nil =>
    cases disable with
    | nil =>
      obtain rfl := Except.ok.inj h
      simp [RuleFilter.admits, RuleFilter.named]
    | cons name disable =>
      obtain rfl := Except.ok.inj h
      refine ⟨Or.inl rfl, fun rule => ?_, fun other => ?_⟩
      · rw [RuleFilter.admits, decide_eq_true_iff, List.mem_toFinset]
        exact (and_iff_right (Or.inl rfl)).symm
      · rw [RuleFilter.named, List.mem_toFinset]
        exact (or_iff_right List.not_mem_nil).symm
  | cons name enable =>
    cases disable with
    | nil =>
      obtain rfl := Except.ok.inj h
      refine ⟨Or.inr rfl, fun rule => ?_, fun other => ?_⟩
      · rw [RuleFilter.admits, decide_eq_true_iff, List.mem_toFinset]
        simp
      · rw [RuleFilter.named, List.mem_toFinset]
        exact (or_iff_left List.not_mem_nil).symm
    | cons other disable => cases h

theorem ruleFilter_new_error {enable disable : List String} {e : Anyhow} :
    RuleFilter.new enable disable = .error e ↔ enable ≠ [] ∧ disable ≠ [] ∧
      e = .msg ("[rules] names both enable and disable; naming the rules that run already says " ++
        "which do not") := by
  cases enable <;> cases disable <;> simp [RuleFilter.new, eq_comm]

/-- What is read from a table. -/
theorem readTable_ok {project : Project} {table : ConfigTable} {loaded : LoadedConfig}
    (h : readTable host project table = .ok loaded) :
    table.Accepted host ∧ Reads host project table loaded := by
  unfold readTable at h
  split at h
  · cases h
  · rename_i rules hrules
    split at h
    · cases h
    · rename_i lints hlints
      obtain rfl := Except.ok.inj h
      obtain ⟨hone, hadmits, hnamed⟩ := ruleFilter_new_ok (withContext_eq_ok.mp hrules)
      have hsources := readLints_ok_iff.mp (withContext_eq_ok.mp hlints)
      refine ⟨⟨hone, describes_all_iff.mp ⟨_, hsources⟩⟩, ?_⟩
      exact
        { root := rfl
          ignore := by
            rw [List.map_map]
            exact List.map_id _
          sources := hsources
          admits := hadmits
          named := hnamed
          options := OptionsTable.names_readOptions table.rules.options
          configures := by
            intro rule
            constructor
            · intro h
              obtain ⟨option, hoption, rfl⟩ := h
              exact ⟨option.name, option.values, OptionsTable.mem_readOptions.mp hoption⟩
            · intro h
              obtain ⟨name, values, hset⟩ := h
              exact ⟨⟨rule, name, values⟩, OptionsTable.mem_readOptions.mpr hset, rfl⟩ }

theorem readTable_error {project : Project} {table : ConfigTable} {e : Anyhow} :
    readTable host project table = .error e ↔
      ∃ cause, e = cause.context ("failed to read " ++ project.configurationPath) ∧
        (RuleFilter.new table.rules.enable table.rules.disable = .error cause ∨
          (table.rules.enable = [] ∨ table.rules.disable = []) ∧
            readLints host 0 table.lints = .error cause) := by
  unfold readTable
  cases hrules : RuleFilter.new table.rules.enable table.rules.disable with
  | error cause =>
    have hboth := ruleFilter_new_error.mp hrules
    rw [withContext_error]
    dsimp only
    rw [Except.error.injEq]
    constructor
    · exact fun h => ⟨cause, h.symm, Or.inl rfl⟩
    · intro h
      obtain ⟨other, rfl, hcause | ⟨hone, _⟩⟩ := h
      · rw [Except.error.inj hcause]
      · exact absurd hone (not_or.mpr ⟨hboth.1, hboth.2.1⟩)
  | ok rules =>
    have hone := (ruleFilter_new_ok hrules).1
    rw [withContext_ok]
    dsimp only
    cases hlints : readLints host 0 table.lints with
    | error cause =>
      rw [withContext_error]
      dsimp only
      rw [Except.error.injEq]
      constructor
      · exact fun h => ⟨cause, h.symm, Or.inr ⟨hone, rfl⟩⟩
      · intro h
        obtain ⟨other, rfl, hcause | ⟨_, hcause⟩⟩ := h
        · cases hcause
        · rw [Except.error.inj hcause]
    | ok lints =>
      rw [withContext_ok]
      simp

/-- A table that is accepted is read. -/
theorem readTable_of_accepted {project : Project} {table : ConfigTable}
    (h : table.Accepted host) : ∃ loaded, readTable host project table = .ok loaded := by
  cases hread : readTable host project table with
  | ok loaded => exact ⟨loaded, rfl⟩
  | error e =>
    obtain ⟨cause, _, hcause⟩ := readTable_error.mp hread
    rcases hcause with hrules | ⟨_, hlints⟩
    · obtain ⟨henable, hdisable, _⟩ := ruleFilter_new_error.mp hrules
      exact absurd h.rules (not_or.mpr ⟨henable, hdisable⟩)
    · obtain ⟨sources, hsources⟩ := describes_all_iff.mpr h.lints
      rw [readLints_ok_iff.mpr hsources] at hlints
      cases hlints

/-- A project with a configuration is read from it. -/
theorem load_eq_readTable {path : FilePath} {project : Project} {table : ConfigTable}
    (hproject : host.project path = .ok project) (htable : project.configuration = some table) :
    StilesConfig.load host path = readTable host project table := by
  unfold StilesConfig.load
  rw [hproject]
  dsimp only
  rw [htable]

/-! ## What a refusal tells -/

/-- What a user is told of a result: nothing, if there is no error. -/
def refusal {α : Type*} (result : AnyhowResult α) : Option Anyhow :=
  match result with
  | .error e => some e
  | .ok _ => none

theorem refusal_eq_some {α : Type*} {result : AnyhowResult α} {e : Anyhow} :
    refusal result = some e ↔ result = .error e := by
  cases result <;> simp [refusal]

theorem refusal_withContext {α : Type*} (message : String) (result : AnyhowResult α) :
    refusal (withContext message result) = (refusal result).map (·.context message) := by
  cases result <;> rfl

/-- What is wrong with an entry does not depend on its remote, but for whether it can be read. -/
theorem refusal_toSource {a b : LintEntry} (h : a.Alike host b) :
    refusal (a.toSource host) = refusal (b.toSource host) := by
  obtain ⟨path, git, rev⟩ := a
  obtain ⟨path', git', rev'⟩ := b
  obtain ⟨rfl, rfl, hgit⟩ := h
  cases git with
  | none =>
    cases git' with
    | none => rfl
    | some remote' => cases hgit
  | some remote =>
    cases git' with
    | none => cases hgit
    | some remote' =>
      have hsame : (host.parseUrl remote).isSome = (host.parseUrl remote').isSome :=
        Option.some.inj hgit
      cases path with
      | some path => rfl
      | none =>
        cases rev with
        | none => rfl
        | some rev =>
          unfold LintEntry.toSource GitUrl.new
          dsimp only
          cases hurl : host.parseUrl remote with
          | none =>
            rw [hurl] at hsame
            have hurl' : host.parseUrl remote' = none := by simpa using hsame.symm
            rw [hurl']
          | some url =>
            rw [hurl, Option.isSome_some] at hsame
            obtain ⟨url', hurl'⟩ := Option.isSome_iff_exists.mp hsame.symm
            rw [hurl']
            dsimp only [withContext_ok]
            cases withContext "failed to read the rev of a lint" (GitRev.new host rev) <;> rfl

theorem refusal_readLints_cons (index : Nat) (entry : LintEntry) (rest : List LintEntry) :
    refusal (readLints host index (entry :: rest)) =
      ((refusal (entry.toSource host)).map
        (·.context ("failed to read [[lints]] entry " ++ (index + 1).repr))).or
          (refusal (readLints host (index + 1) rest)) := by
  rw [readLints]
  cases entry.toSource host with
  | error e => rfl
  | ok source =>
    dsimp only [withContext_ok]
    cases readLints host (index + 1) rest <;> rfl

theorem refusal_readLints {entries others : List LintEntry}
    (h : List.Forall₂ (LintEntry.Alike host) entries others) (index : Nat) :
    refusal (readLints host index entries) = refusal (readLints host index others) := by
  induction h generalizing index with
  | nil => rfl
  | cons hentry _ ih =>
    rw [refusal_readLints_cons, refusal_readLints_cons, refusal_toSource hentry, ih]

theorem refusal_readTable (project : Project) {table other : ConfigTable}
    (hrules : other.rules = table.rules)
    (hlints : List.Forall₂ (LintEntry.Alike host) table.lints other.lints) :
    refusal (readTable host project table) = refusal (readTable host project other) := by
  have hsame := congrArg (Option.map (·.context ("failed to read " ++ project.configurationPath)))
    (refusal_readLints hlints 0)
  unfold readTable
  rw [hrules]
  cases withContext ("failed to read " ++ project.configurationPath)
    (RuleFilter.new table.rules.enable table.rules.disable) with
  | error e => rfl
  | ok rules =>
    rw [← refusal_withContext, ← refusal_withContext] at hsame
    dsimp only
    cases hfirst : withContext ("failed to read " ++ project.configurationPath)
        (readLints host 0 table.lints) with
    | error e =>
      rw [hfirst] at hsame
      rw [refusal_eq_some.mp hsame.symm]
    | ok lints =>
      rw [hfirst] at hsame
      cases hsecond : withContext ("failed to read " ++ project.configurationPath)
          (readLints host 0 other.lints) with
      | error e =>
        rw [hsecond] at hsame
        cases hsame
      | ok others => rfl

/-- A table is accepted exactly if it does not both enable and disable and each `[[lints]]` entry
    describes a source. What is read says what the table says. A refusal names the file, and either
    the contradiction or the number of the first entry that describes nothing, with what is wrong.
    It is the same for every remote that gitoxide reads, so that it never tells a credential. -/
theorem load_reads (host : ConfigHost) (path : FilePath) (project : Project) (table : ConfigTable)
    (hproject : host.project path = .ok project) (htable : project.configuration = some table) :
    ((∃ loaded, StilesConfig.load host path = .ok loaded) ↔ table.Accepted host) ∧
    (∀ loaded, StilesConfig.load host path = .ok loaded → Reads host project table loaded) ∧
    (∀ e, StilesConfig.load host path = .error e →
      ∃ cause, e = cause.context ("failed to read " ++ project.configurationPath) ∧
        (table.rules.enable ≠ [] ∧ table.rules.disable ≠ [] ∧
            cause = .msg ("[rules] names both enable and disable; naming the rules that run " ++
              "already says which do not") ∨
          ∃ number wrong, FirstBad host table.lints number wrong ∧
            cause = wrong.context ("failed to read [[lints]] entry " ++ number.repr))) ∧
    ∀ other : ConfigTable, other.rules = table.rules →
      List.Forall₂ (LintEntry.Alike host) table.lints other.lints →
        refusal (StilesConfig.load host path) = refusal (readTable host project other) := by
  rw [load_eq_readTable hproject htable]
  refine ⟨⟨fun h => ?_, readTable_of_accepted⟩, fun loaded h => (readTable_ok h).2, fun e he => ?_,
    fun other hrules hlints => refusal_readTable project hrules hlints⟩
  · obtain ⟨loaded, hloaded⟩ := h
    exact (readTable_ok hloaded).1
  · obtain ⟨cause, hcause, hwrong⟩ := readTable_error.mp he
    refine ⟨cause, hcause, ?_⟩
    rcases hwrong with hrules | ⟨_, hlints⟩
    · exact Or.inl (ruleFilter_new_error.mp hrules)
    · obtain ⟨number, wrong, hbad, hnumber⟩ := readLints_error_iff.mp hlints
      rw [Nat.zero_add] at hnumber
      exact Or.inr ⟨number, wrong, hbad, hnumber⟩

/-- A project whose configuration names a directory of lints and turns one rule off. -/
def tableHost : ConfigHost where
  project _ := .ok
    { root := ⟨"/project"⟩
      configurationPath := "/project/.config/stiles.toml"
      configuration := some
        { ignore := []
          lints := [⟨some "lints", none, none⟩]
          rules := { enable := [], disable := ["lint.number"], options := ∅ }
          stilesSource := none } }
  parseUrl _ := none
  quoted text := text

theorem load_reads_table : ∃ loaded, StilesConfig.load tableHost ⟨"."⟩ = .ok loaded ∧
    loaded.config.rules.admits ⟨"lint.number"⟩ = false := by
  obtain ⟨haccepted, hreads, -⟩ := load_reads tableHost ⟨"."⟩ _ _ rfl rfl
  obtain ⟨loaded, hloaded⟩ := haccepted.mpr
    { rules := Or.inl rfl
      lints := by
        intro entry hentry
        rw [List.mem_singleton.mp hentry]
        exact ⟨_, .path "lints"⟩ }
  refine ⟨loaded, hloaded, Bool.eq_false_iff.mpr fun hadmits => ?_⟩
  exact (((hreads loaded hloaded).admits ⟨"lint.number"⟩).mp hadmits).2 List.mem_cons_self

end Stiles
