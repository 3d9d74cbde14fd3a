import Mathlib.Data.String.Basic
import Stiles.CustomLints.Loaded
import Stiles.General.Keyed

/-
  The declared rules with their languages (`CustomLints::rules` in `custom_lints.rs`).

  The listing goes over every rule of every lint and adds the language of the lint to the rule. A
  load that succeeds leaves no two lints that share a rule of one language, but a lint may name a
  rule twice.

  * `rules_listed`: each declared rule is listed once, by name, with the languages of its lints.
  * `listsEachOnce_iff`: it has each language once exactly if no lint names a rule twice.
-/

namespace Stiles

variable {D : DecorationTypes}

/-- A rule that a plugin declares, and the languages it runs on, in load order. -/
structure DeclaredRule where
  rule : RuleId
  languages : List Language
deriving DecidableEq, Repr

/-- The body of the loop: the language goes to the rule if it is known, or with it to the end. -/
def declareRule (language : Language) (rule : RuleId) : List DeclaredRule → List DeclaredRule
  | [] => [{ rule, languages := [language] }]
  | known :: rules =>
    if known.rule = rule then
      { known with languages := known.languages ++ [language] } :: rules
    else known :: declareRule language rule rules

def CustomLints.rules (custom : CustomLints D) : List DeclaredRule :=
  let rules := custom.lints.foldl
    (fun rules lint => lint.rules.foldl (fun rules rule => declareRule lint.language rule rules)
      rules) []
  Keyed.sortBy (fun declared => declared.rule.asStr) rules

/-! ## The loop as a grouping -/

def DeclaredRule.entry (declared : DeclaredRule) : RuleId × List Language :=
  (declared.rule, declared.languages)

/-- Every rule of every lint with the language of the lint, in order. -/
def declarations (lints : List (LoadedLint D)) : List (RuleId × Language) :=
  lints.flatMap fun lint => lint.rules.map fun rule => (rule, lint.language)

/-- The languages that are declared for a rule, in order. -/
def languagesOf (lints : List (LoadedLint D)) (rule : RuleId) : List Language :=
  lints.flatMap fun lint => List.replicate (lint.rules.count rule) lint.language

theorem declareRule_entry (language : Language) (rule : RuleId) (rules : List DeclaredRule) :
    (declareRule language rule rules).map DeclaredRule.entry
      = Keyed.push rule language (rules.map DeclaredRule.entry) := by
  induction rules with
  | nil => rfl
  | cons known rules ih =>
    rw [declareRule, List.map_cons, DeclaredRule.entry, Keyed.push]
    by_cases hknown : known.rule = rule
    · rw [if_pos hknown, if_pos hknown]
      rfl
    · rw [if_neg hknown, if_neg hknown, List.map_cons, ih]
      rfl

theorem foldl_declareRule_entry (lints : List (LoadedLint D)) (rules : List DeclaredRule) :
    (lints.foldl (fun rules lint => lint.rules.foldl (fun rules rule =>
        declareRule lint.language rule rules) rules) rules).map DeclaredRule.entry
      = (declarations lints).foldl (fun groups pair => Keyed.push pair.1 pair.2 groups)
          (rules.map DeclaredRule.entry) := by
  have hone : ∀ (language : Language) (names : List RuleId) (rules : List DeclaredRule),
      (names.foldl (fun rules rule => declareRule language rule rules) rules).map DeclaredRule.entry
        = (names.map fun rule => (rule, language)).foldl
            (fun groups pair => Keyed.push pair.1 pair.2 groups)
            (rules.map DeclaredRule.entry) := by
    intro language names
    induction names with
    | nil => exact fun rules => rfl
    | cons rule names ih =>
      intro rules
      rw [List.foldl_cons, ih, declareRule_entry]
      rfl
  induction lints generalizing rules with
  | nil => rfl
  | cons lint lints ih =>
    rw [List.foldl_cons, ih, hone, declarations, declarations, List.flatMap_cons,
      List.foldl_append]

theorem valuesOf_declarations (lints : List (LoadedLint D)) (rule : RuleId) :
    Keyed.valuesOf (declarations lints) rule = languagesOf lints rule := by
  induction lints with
  | nil => rfl
  | cons lint lints ih =>
    have hlint : Keyed.valuesOf (lint.rules.map fun rule => (rule, lint.language)) rule
        = List.replicate (lint.rules.count rule) lint.language := by
      rw [Keyed.valuesOf, List.filter_map, List.map_map, List.eq_replicate_iff]
      constructor
      · rw [List.length_map, List.count_eq_length_filter]
        congr 1
      · intro language hlanguage
        obtain ⟨name, _, rfl⟩ := List.mem_map.mp hlanguage
        rfl
    rw [declarations, List.flatMap_cons, Keyed.valuesOf_append, hlint, languagesOf,
      List.flatMap_cons]
    exact congrArg _ ih

theorem mem_languagesOf {lints : List (LoadedLint D)} {rule : RuleId} {language : Language} :
    language ∈ languagesOf lints rule ↔ ∃ lint ∈ lints, Owns lint rule language := by
  rw [languagesOf, List.mem_flatMap]
  refine exists_congr fun lint => and_congr_right fun _ => ?_
  rw [List.mem_replicate, Owns, ← Nat.pos_iff_ne_zero, List.count_pos_iff, and_comm, eq_comm]

theorem nodup_languagesOf_iff {lints : List (LoadedLint D)}
    (hload : refuseSharedRules lints = .ok ()) {rule : RuleId} :
    (languagesOf lints rule).Nodup ↔ ∀ lint ∈ lints, lint.rules.count rule ≤ 1 := by
  rw [languagesOf, List.nodup_flatMap]
  have hdisjoint : lints.Pairwise (Function.onFun List.Disjoint fun lint =>
      List.replicate (lint.rules.count rule) lint.language) := by
    refine (refuseSharedRules_ok_iff_pairwise.mp hload).imp fun {lint other} hnone => ?_
    intro language hlint hother
    have howns : ∀ l : LoadedLint D, language ∈ List.replicate (l.rules.count rule) l.language →
        Owns l rule language := by
      intro l hl
      obtain ⟨hcount, hlanguage⟩ := List.mem_replicate.mp hl
      exact ⟨hlanguage.symm, List.count_pos_iff.mp (Nat.pos_of_ne_zero hcount)⟩
    exact sharedRule_eq_none.mp hnone rule language (howns lint hlint) (howns other hother)
  rw [and_iff_left hdisjoint]
  refine forall₂_congr fun lint _ => ?_
  rw [List.nodup_replicate]

/-! ## The listing -/

/-- What a listing is for: each declared rule once, by name, with the languages of the lints that
    declare it. -/
structure ListsRules (lints : List (LoadedLint D)) (listed : List DeclaredRule) : Prop where
  sorted : (listed.map fun declared => declared.rule.asStr).Pairwise (· < ·)
  declares : ∀ rule, rule ∈ listed.map DeclaredRule.rule ↔ ∃ lint ∈ lints, rule ∈ lint.rules
  languages : ∀ declared ∈ listed, ∀ language,
    language ∈ declared.languages ↔ ∃ lint ∈ lints, Owns lint declared.rule language

/-- The listing holds a group for each declared rule. -/
theorem rules_perm (custom : CustomLints D) :
    (custom.rules.map DeclaredRule.entry).Perm
      (((declarations custom.lints).map Prod.fst).eraseDups.map fun rule =>
        (rule, languagesOf custom.lints rule)) := by
  have hgroups := foldl_declareRule_entry custom.lints []
  change _ = Keyed.group (declarations custom.lints) at hgroups
  rw [Keyed.group_eq] at hgroups
  simp only [valuesOf_declarations] at hgroups
  rw [← hgroups]
  exact (Keyed.sortBy_perm _ _).map _

theorem mem_declarations {lints : List (LoadedLint D)} {rule : RuleId} :
    rule ∈ ((declarations lints).map Prod.fst).eraseDups ↔ ∃ lint ∈ lints, rule ∈ lint.rules := by
  simp [declarations]

theorem mem_rules {custom : CustomLints D} {declared : DeclaredRule} :
    declared ∈ custom.rules ↔ (∃ lint ∈ custom.lints, declared.rule ∈ lint.rules) ∧
      declared.languages = languagesOf custom.lints declared.rule := by
  have hentry : declared ∈ custom.rules ↔
      declared.entry ∈ custom.rules.map DeclaredRule.entry := by
    constructor
    · exact List.mem_map_of_mem
    · intro h
      obtain ⟨other, hother, heq⟩ := List.mem_map.mp h
      obtain ⟨hrule, hlanguages⟩ := Prod.mk.inj heq
      have hsame : other = declared := congr (congrArg DeclaredRule.mk hrule) hlanguages
      exact hsame ▸ hother
  rw [hentry, (rules_perm custom).mem_iff, List.mem_map, ← mem_declarations]
  constructor
  · intro h
    obtain ⟨rule, hrule, heq⟩ := h
    obtain ⟨rfl, hlanguages⟩ := Prod.mk.inj heq
    exact ⟨hrule, hlanguages.symm⟩
  · intro h
    exact ⟨declared.rule, h.1, Prod.ext rfl h.2.symm⟩

theorem nodup_rules (custom : CustomLints D) : (custom.rules.map DeclaredRule.rule).Nodup := by
  have hrules := (rules_perm custom).map Prod.fst
  rw [List.map_map, List.map_map] at hrules
  have hkeys : Prod.fst ∘ (fun rule => (rule, languagesOf custom.lints rule)) = id := rfl
  rw [hkeys, List.map_id] at hrules
  exact hrules.nodup_iff.mpr (KeyedMerge.nodup_eraseDups _)

/-- Each declared rule is listed once, by name, with the languages of its lints. -/
theorem rules_listed (custom : CustomLints D) : ListsRules custom.lints custom.rules where
  sorted := by
    have hsorted := Keyed.pairwise_sortBy (fun declared : DeclaredRule => declared.rule.asStr)
      (custom.lints.foldl (fun rules lint => lint.rules.foldl (fun rules rule =>
        declareRule lint.language rule rules) rules) [])
    have hnodup : (custom.rules.map fun declared => declared.rule.asStr).Nodup := by
      have hnames := (nodup_rules custom).map (f := RuleId.asStr)
        fun rule other h => congrArg RuleId.mk h
      rwa [List.map_map] at hnames
    exact (hsorted.and hnodup).imp fun h => lt_of_le_of_ne h.1 h.2
  declares := by
    intro rule
    rw [List.mem_map]
    constructor
    · intro h
      obtain ⟨declared, hdeclared, rfl⟩ := h
      exact (mem_rules.mp hdeclared).1
    · intro h
      exact ⟨⟨rule, languagesOf custom.lints rule⟩, mem_rules.mpr ⟨h, rfl⟩, rfl⟩
  languages := by
    intro declared hdeclared language
    rw [(mem_rules.mp hdeclared).2, mem_languagesOf]

/-- Of the lints of a load that succeeded, the listing has each rule once, by name, with exactly the
    languages of its lints and each language once, if and only if no lint names a rule twice. -/
theorem listsEachOnce_iff (custom : CustomLints D)
    (hload : refuseSharedRules custom.lints = .ok ()) :
    (ListsRules custom.lints custom.rules ∧
      ∀ declared ∈ custom.rules, declared.languages.Nodup) ↔
        ∀ lint ∈ custom.lints, lint.rules.Nodup := by
  rw [and_iff_right (rules_listed custom)]
  constructor
  · intro honce lint hlint
    rw [List.nodup_iff_count_le_one]
    intro rule
    by_cases hrule : rule ∈ lint.rules
    · have hlisted : (⟨rule, languagesOf custom.lints rule⟩ : DeclaredRule) ∈ custom.rules :=
        mem_rules.mpr ⟨⟨lint, hlint, hrule⟩, rfl⟩
      exact (nodup_languagesOf_iff hload).mp (honce _ hlisted) lint hlint
    · rw [List.count_eq_zero.mpr hrule]
      omega
  · intro hnodup declared hdeclared
    rw [(mem_rules.mp hdeclared).2, nodup_languagesOf_iff hload]
    intro lint hlint
    exact List.nodup_iff_count_le_one.mp (hnodup lint hlint) declared.rule

/-! ## A lint that repeats a rule -/

/-- No decorations. -/
def noTypes : DecorationTypes where
  Ty := Empty
  KEY := Empty.elim
  Value := Empty.elim

/-- A library with one lint for Rust that declares these rules. -/
def rustLibrary (D : DecorationTypes) (rules : List RuleId) : Library D where
  path := ⟨"/lints/librules.so"⟩
  exports := .ok [⟨fun _ => .error ⟨"unused"⟩, .Rust, rules⟩]

/-- A load accepts a lint that names its rule twice, and the listing has its language twice. -/
theorem rules_repeat_language :
    ¬∀ (D : DecorationTypes) (libraries : List (Library D)) (lints : List (LoadedLint D)),
      loadLibraries libraries = .ok lints → refuseSharedRules lints = .ok () →
        ListsRules lints (CustomLints.rules ⟨lints⟩) ∧
          ∀ declared ∈ CustomLints.rules ⟨lints⟩, declared.languages.Nodup := by
  intro h
  obtain ⟨_, honce⟩ := h noTypes [rustLibrary noTypes [⟨"lint.a"⟩, ⟨"lint.a"⟩]] _ rfl rfl
  have htwice := honce ⟨⟨"lint.a"⟩, [.Rust, .Rust]⟩ (by decide)
  exact absurd htwice (by decide)

theorem rules_once :
    ∃ lints, loadLibraries [rustLibrary noTypes [⟨"lint.b"⟩, ⟨"lint.a"⟩]] = .ok lints ∧
      ListsRules lints (CustomLints.rules ⟨lints⟩) ∧
        ∀ declared ∈ CustomLints.rules ⟨lints⟩, declared.languages.Nodup := by
  refine ⟨_, rfl, (listsEachOnce_iff _ rfl).mpr ?_⟩
  intro lint hlint
  rw [List.mem_singleton.mp hlint]
  decide

end Stiles
