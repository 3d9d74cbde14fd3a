import Stiles.Config.RuleFilter
import Stiles.Core.Lint

/-
  The lints that a project loads (`custom_lints.rs`): load, ownership of rules, instantiation.

  A `LoadedLint` keeps the factory of its plugin. A factory is a closure of the plugin and may
  answer differently each time; `factory k` is its answer when the run checks file number `k`.

  `refuseSharedRules_ok_iff` says when a load is accepted: every rule has at most one lint for each
  language (`OwnsAlone`). `instantiate_getElem` says which pass a lint is instantiated with.
-/

namespace Stiles

variable {D : DecorationTypes}

def Language.display : Language → String
  | .Rust => "Rust"
  | .TypeScript => "TypeScript"

/-- A lint as a plugin exports it. -/
structure ExportedLint (D : DecorationTypes) where
  factory : Nat → Except Panic (LintPass D)
  language : Language
  rules : List RuleId

structure LoadedLint (D : DecorationTypes) where
  factory : Nat → Except Panic (LintPass D)
  language : Language
  rules : List RuleId
  library : FilePath

/-- A library that was built or unpacked. `exports` is what opening it, the handshake and its
    `load` function give. -/
structure Library (D : DecorationTypes) where
  path : FilePath
  exports : AnyhowResult (List (ExportedLint D))

/-- The part of `load_library` after the handshake. -/
def loadLibrary (library : Library D) : AnyhowResult (List (LoadedLint D)) :=
  match library.exports with
  | .error e => .error e
  | .ok exported =>
    let lints := exported.map fun lint =>
      { factory := lint.factory, language := lint.language, rules := lint.rules,
        library := library.path }
    if lints.isEmpty then
      .error (.msg ("the plugin exported no lints; a plugin that does nothing looks exactly " ++
        "like one that works, so this is treated as a mistake"))
    else if lints.any fun lint => lint.rules.isEmpty then
      .error (.msg ("the plugin exported a lint that declares no rules; stiles refuses every " ++
        "diagnostic such a lint reports, so give it a `DeclaresRules` implementation that names " ++
        "them"))
    else .ok lints

/-- Loads the libraries in order, and stops at the first that fails. -/
def loadLibraries : List (Library D) → AnyhowResult (List (LoadedLint D))
  | [] => .ok []
  | library :: rest =>
    match withContext ("failed to load " ++ library.path.text) (loadLibrary library) with
    | .error e => .error e
    | .ok loaded => (loadLibraries rest).map (loaded ++ ·)

/-! ## Shared rules -/

/-- The message about two lints that declare one rule for one language. -/
def sharedRuleError (shared : RuleId) (lint other : LoadedLint D) : Anyhow :=
  .msg ("two lints declare `" ++ shared.asStr ++ "` for " ++ lint.language.display ++ ": one in " ++
    lint.library.text ++ ", one in " ++ other.library.text ++
    ". A rule id names one lint per language, so rename one of them")

/-- The first rule that two lints of one language share. -/
def sharedRule (lint other : LoadedLint D) : Option RuleId :=
  if lint.language ≠ other.language then none
  else lint.rules.find? fun rule => other.rules.contains rule

/-- The inner loop: one lint against the ones after it. -/
def refuseSharedWith (lint : LoadedLint D) : List (LoadedLint D) → AnyhowResult Unit
  | [] => .ok ()
  | other :: rest =>
    match sharedRule lint other with
    | some shared => .error (sharedRuleError shared lint other)
    | none => refuseSharedWith lint rest

def refuseSharedRules : List (LoadedLint D) → AnyhowResult Unit
  | [] => .ok ()
  | lint :: rest =>
    match refuseSharedWith lint rest with
    | .error e => .error e
    | .ok () => refuseSharedRules rest

/-- Whether a lint reports `rule` on `language`. -/
def Owns (lint : LoadedLint D) (rule : RuleId) (language : Language) : Prop :=
  lint.language = language ∧ rule ∈ lint.rules

/-- Every rule is declared for every language by at most one position of the list. -/
def OwnsAlone (lints : List (LoadedLint D)) : Prop :=
  ∀ rule language (i j : Nat) (lint other : LoadedLint D),
    lints[i]? = some lint → lints[j]? = some other →
      Owns lint rule language → Owns other rule language → i = j

theorem sharedRule_eq_none {lint other : LoadedLint D} :
    sharedRule lint other = none ↔
      ∀ rule language, Owns lint rule language → ¬ Owns other rule language := by
  unfold sharedRule Owns
  by_cases hlang : lint.language = other.language
  · simp only [hlang, ne_eq, not_true_eq_false, if_false, List.find?_eq_none, List.contains_iff_mem]
    constructor
    · rintro h rule language ⟨_, hrule⟩ ⟨_, hother⟩
      exact h rule hrule hother
    · intro h rule hrule hother
      exact h rule other.language ⟨rfl, hrule⟩ ⟨rfl, hother⟩
  · simp only [ne_eq, hlang, not_false_eq_true, if_true, true_iff]
    rintro rule language ⟨hl, _⟩ ⟨ho, _⟩
    exact hlang (hl.trans ho.symm)

theorem refuseSharedWith_ok_iff {lint : LoadedLint D} {rest : List (LoadedLint D)} :
    refuseSharedWith lint rest = .ok () ↔ ∀ other ∈ rest, sharedRule lint other = none := by
  induction rest with
  | nil => simp [refuseSharedWith]
  | cons other rest ih =>
    rw [refuseSharedWith, List.forall_mem_cons]
    cases h : sharedRule lint other with
    | none => simpa using ih
    | some shared => simp

/-- The load is accepted exactly when no two lints share a rule of one language, in either order
    of the list. -/
theorem refuseSharedRules_ok_iff_pairwise {lints : List (LoadedLint D)} :
    refuseSharedRules lints = .ok () ↔
      lints.Pairwise fun lint other => sharedRule lint other = none := by
  induction lints with
  | nil => simp [refuseSharedRules]
  | cons lint rest ih =>
    rw [refuseSharedRules, List.pairwise_cons, ← refuseSharedWith_ok_iff, ← ih]
    cases h : refuseSharedWith lint rest with
    | error e => simp
    | ok u => simp

theorem refuseSharedRules_ok_iff {lints : List (LoadedLint D)} :
    refuseSharedRules lints = .ok () ↔ OwnsAlone lints := by
  rw [refuseSharedRules_ok_iff_pairwise, List.pairwise_iff_getElem]
  constructor
  · intro h rule language i j lint other hi hj hlint hother
    obtain ⟨hilt, rfl⟩ := List.getElem?_eq_some_iff.mp hi
    obtain ⟨hjlt, rfl⟩ := List.getElem?_eq_some_iff.mp hj
    rcases lt_trichotomy i j with hij | hij | hij
    · exact absurd hother (sharedRule_eq_none.mp (h i j hilt hjlt hij) rule language hlint)
    · exact hij
    · exact absurd hlint (sharedRule_eq_none.mp (h j i hjlt hilt hij) rule language hother)
  · intro h i j hi hj hij
    refine sharedRule_eq_none.mpr fun rule language hlint hother => ?_
    have := h rule language i j _ _ (List.getElem?_eq_getElem hi) (List.getElem?_eq_getElem hj)
      hlint hother
    omega

/-! ## Instantiation -/

structure CustomLints (D : DecorationTypes) where
  lints : List (LoadedLint D)

/-- Constructs the pass of one lint for file number `k`, and hands it the options of its rules. -/
def instantiateOne (options : RuleOptions) (k : Nat) (lint : LoadedLint D) :
    AnyhowResult (Lint D) :=
  match lint.factory k with
  | .error panic =>
    .error ⟨"a lint pass panicked while it was constructed", [panic.message]⟩
  | .ok pass =>
    match pass.configure (options.forRules lint.rules) with
    | (.error panic, _) =>
      .error ⟨"a lint pass panicked while reading the project's options", [panic.message]⟩
    | (.ok (), pass) => .ok (Lint.new pass lint.rules)

/-- `collect` over the lints: the first error ends it. -/
def instantiateAll (options : RuleOptions) (k : Nat) :
    List (LoadedLint D) → AnyhowResult (List (Lint D))
  | [] => .ok []
  | lint :: rest =>
    match instantiateOne options k lint with
    | .error e => .error e
    | .ok pass =>
      match instantiateAll options k rest with
      | .error e => .error e
      | .ok passes => .ok (pass :: passes)

namespace CustomLints

def instantiate (custom : CustomLints D) (options : RuleOptions) (k : Nat) :
    AnyhowResult (List (Lint D)) :=
  instantiateAll options k custom.lints

/-- Every rule that the loaded plugins declare. -/
def declared (custom : CustomLints D) : Finset String :=
  ((custom.lints.flatMap LoadedLint.rules).map RuleId.asStr).toFinset

end CustomLints

/-- A lint that was instantiated holds a pass of its factory, after it was configured with the
    options of the rules it declares. -/
def InstanceOf (options : RuleOptions) (k : Nat) (lint : LoadedLint D) (made : Lint D) : Prop :=
  ∃ pass configured, lint.factory k = .ok pass ∧
    pass.configure (options.forRules lint.rules) = (.ok (), configured) ∧
    made = Lint.new configured lint.rules

theorem instantiateOne_eq_ok {options : RuleOptions} {k : Nat} {lint : LoadedLint D}
    {made : Lint D} :
    instantiateOne options k lint = .ok made ↔ InstanceOf options k lint made := by
  unfold instantiateOne InstanceOf
  cases lint.factory k with
  | error panic => simp
  | ok pass =>
    simp only [Except.ok.injEq, exists_and_left, existsAndEq, true_and]
    obtain ⟨answer, configured⟩ := pass.configure (options.forRules lint.rules)
    cases answer with
    | error panic => simp
    | ok u => simp [eq_comm]

/-- Instantiation succeeds when every lint does, and keeps the order of the lints. -/
theorem instantiateAll_eq_ok {options : RuleOptions} {k : Nat} {lints : List (LoadedLint D)}
    {passes : List (Lint D)} :
    instantiateAll options k lints = .ok passes ↔
      List.Forall₂ (InstanceOf options k) lints passes := by
  induction lints generalizing passes with
  | nil => cases passes <;> simp [instantiateAll]
  | cons lint rest ih =>
    rw [instantiateAll]
    cases hone : instantiateOne options k lint with
    | error e =>
      simp only [reduceCtorEq, false_iff]
      intro h
      cases h with
      | cons hmade _ => simp [instantiateOne_eq_ok.mpr hmade] at hone
    | ok made =>
      cases hall : instantiateAll options k rest with
      | error e =>
        simp only [reduceCtorEq, false_iff]
        intro h
        cases h with
        | cons _ hrest => simp [ih.mpr hrest] at hall
      | ok others =>
        simp only [Except.ok.injEq]
        constructor
        · rintro rfl
          exact .cons (instantiateOne_eq_ok.mp hone) (ih.mp hall)
        · intro h
          cases h with
          | cons hmade hrest =>
            have h1 := instantiateOne_eq_ok.mpr hmade
            have h2 := ih.mpr hrest
            rw [hone, Except.ok.injEq] at h1
            rw [hall, Except.ok.injEq] at h2
            rw [h1, h2]

theorem instantiate_getElem {custom : CustomLints D} {options : RuleOptions} {k : Nat}
    {passes : List (Lint D)} (h : custom.instantiate options k = .ok passes) {i : Nat}
    {made : Lint D} (hi : passes[i]? = some made) :
    ∃ lint, custom.lints[i]? = some lint ∧ InstanceOf options k lint made := by
  have hall := instantiateAll_eq_ok.mp h
  obtain ⟨hlt, rfl⟩ := List.getElem?_eq_some_iff.mp hi
  have hlen := hall.length_eq
  exact ⟨custom.lints[i], List.getElem?_eq_getElem (by omega),
    (List.forall₂_iff_get.mp hall).2 i (by omega) hlt⟩

end Stiles
