import Stiles.General.Ratchet
import Stiles.General.Text
import Stiles.Plugin.AbiVersion
import Mathlib.Data.List.Basic

/-
  The check of the plugin boundary (`check_abi.rs`).

  `verdict` compares the record of the base branch with the record of the tree. It looks at the
  fingerprints first. Where none moved it passes, whatever the versions say. Where one moved it
  wants a raised version, and from 1.0 a raised major.

  * `floor_advances`: a step that moves a fingerprint raises the floor of the version.
  * `same_floor_same_fingerprints`: in a history without refused steps, two records of one floor
    have the same fingerprints, as long as no step between them lowers the floor and moves nothing.
  * `reused_version`: a version that is lowered where nothing moved is free to name a second
    boundary.
-/

namespace Stiles.CheckAbi

/-! ## Reading a record -/

/-- The value of a key in a record, which writes each as `key = "value"`. -/
def value (key record : String) : Option (List Char) :=
  (Text.lines record.toList).findSome? fun line => do
    let rest ← line.dropPrefix? key.toList
    let rest ← (rest.dropWhile Text.isWhitespace).dropPrefix? ['=']
    let rest ← (Text.trim Text.isWhitespace rest).dropPrefix? ['"']
    rest.dropSuffix? ['"']

/-- `str::parse::<u32>`: a sign is let pass, and what does not fit is refused. -/
def parseU32 (text : List Char) : Option UInt32 :=
  let digits := (text.dropPrefix? ['+']).getD text
  if digits.isEmpty || !digits.all Char.isDigit then none
  else
    let n := digits.foldl (fun n c => 10 * n + (c.toNat - '0'.toNat)) 0
    if n < 2 ^ 32 then some (UInt32.ofNat n) else none

/-- `AbiVersion::parse`, which reads a version such as `0.2`. -/
def parseVersion (text : List Char) : Option AbiVersion :=
  if text.contains '.' then do
    let major ← parseU32 (text.takeWhile (· ≠ '.'))
    let minor ← parseU32 ((text.dropWhile (· ≠ '.')).drop 1)
    return { major, minor }
  else none

/-- The keys of the record that hold a fingerprint of the boundary. -/
def FINGERPRINTS : List String :=
  ["types-fingerprint", "language-fingerprint"]

def fingerprints (record : String) : List (Option (List Char)) :=
  FINGERPRINTS.map fun key => value key record

def version (record : String) : Option AbiVersion :=
  (value "version" record).bind parseVersion

/-! ## Comparing two records -/

def RECORD : String := "crates/stiles-plugin/abi-surface.toml"

inductive Verdict where
  | Unmoved
  | Raised (before after : AbiVersion)
  | Refused (reason : String)
deriving DecidableEq, Repr

def verdict (before after : String) : Verdict :=
  if FINGERPRINTS.all fun key => value key before = value key after then .Unmoved
  else
    match version before, version after with
    | some old, some new =>
      if new ≤ old then
        .Refused ("the plugin boundary moved, but ABI_VERSION did not rise above " ++ old.display ++
          ". Raise ABI_VERSION in crates/stiles-types/src/plugin.rs.")
      else if 1 ≤ old.major.toNat ∧ new.major = old.major then
        .Refused ("a fingerprinted type changed, which refuses every plugin of ABI " ++
          old.major.toNat.repr ++ ". Raise the major of ABI_VERSION, not the minor.")
      else
        .Raised old new
    | _, _ => .Refused (RECORD ++ " holds no version in the form MAJOR.MINOR")

def Verdict.isRefused : Verdict → Bool
  | .Refused _ => true
  | _ => false

theorem unmoved_iff {before after : String} :
    (FINGERPRINTS.all fun key => value key before = value key after) = true
      ↔ fingerprints before = fingerprints after := by
  simp [FINGERPRINTS, fingerprints]

/-- A step passes where nothing moved, or where the version rose as far as it had to. -/
theorem passes_iff {before after : String} : (verdict before after).isRefused = false ↔
    fingerprints before = fingerprints after ∨ ∃ old new, version before = some old ∧
      version after = some new ∧ ¬new ≤ old ∧ ¬(1 ≤ old.major.toNat ∧ new.major = old.major) := by
  rw [verdict, ← unmoved_iff]
  by_cases hmoved : (FINGERPRINTS.all fun key => value key before = value key after) = true
  · rw [if_pos hmoved]
    exact iff_of_true rfl (Or.inl hmoved)
  · rw [if_neg hmoved]
    cases version before with
    | none => simp [hmoved, Verdict.isRefused]
    | some old =>
      cases version after with
      | none => simp [hmoved, Verdict.isRefused]
      | some new =>
        by_cases hle : new ≤ old
        · simp [hmoved, hle, Verdict.isRefused]
        · by_cases hmajor : 1 ≤ old.major.toNat ∧ new.major = old.major
          · simp [hmoved, hle, hmajor, Verdict.isRefused]
          · simp only [if_neg hle, if_neg hmajor]
            exact iff_of_true rfl (Or.inr ⟨old, new, rfl, rfl, hle, hmajor⟩)

/-- What the check wants of a moved boundary raises the floor. -/
theorem floor_lt {old new : AbiVersion} (hle : ¬new ≤ old)
    (hmajor : ¬(1 ≤ old.major.toNat ∧ new.major = old.major)) : old.floor < new.floor := by
  rw [← UInt32.toNat_inj] at hmajor
  rw [AbiVersion.le_iff] at hle
  rw [AbiVersion.lt_iff, AbiVersion.floor_major, AbiVersion.floor_major, AbiVersion.floor_minor,
    AbiVersion.floor_minor]
  split <;> split <;> omega

/-! ## Histories -/

/-- The floor of the version of a record that has one. -/
def recordFloor (record : String) : AbiVersion :=
  ((version record).getD ⟨0, 0⟩).floor

theorem recordFloor_eq {record : String} {v : AbiVersion} (h : version record = some v) :
    recordFloor record = v.floor := by
  rw [recordFloor, h]
  rfl

theorem floor_advances {before after : String} (hpasses : (verdict before after).isRefused = false)
    (hkept : fingerprints before = fingerprints after → recordFloor before ≤ recordFloor after) :
    Ratchet.Advances recordFloor fingerprints before after := by
  rcases passes_iff.mp hpasses with hsame | ⟨old, new, hold, hnew, hle, hmajor⟩
  · exact Or.inl ⟨hsame, hkept hsame⟩
  · refine Or.inr ?_
    rw [recordFloor_eq hold, recordFloor_eq hnew]
    exact floor_lt hle hmajor

/-- Any two records of a history without refused steps whose versions have one floor hold the same
    fingerprints, if no step between them that moves no fingerprint lowers the floor. -/
theorem same_floor_same_fingerprints (history : List String)
    (hread : ∀ record ∈ history, (version record).isSome)
    (hpasses : history.IsChain fun before after => (verdict before after).isRefused = false)
    {i j : Nat} (hij : i ≤ j)
    (hkept : ∀ k, i ≤ k → k < j → ∀ before after old new,
      history[k]? = some before → history[k + 1]? = some after →
      version before = some old → version after = some new →
      fingerprints before = fingerprints after → old.floor ≤ new.floor)
    {a b : String} {v w : AbiVersion} (ha : history[i]? = some a) (hb : history[j]? = some b)
    (hv : version a = some v) (hw : version b = some w) (hfloor : v.floor = w.floor) :
    fingerprints a = fingerprints b := by
  have hsteps : ∀ k, i ≤ k → k < j → ∀ before after, history[k]? = some before →
      history[k + 1]? = some after →
      Ratchet.Advances recordFloor fingerprints before after := by
    intro k hik hkj before after hbefore hafter
    obtain ⟨hk, hkeq⟩ := List.getElem?_eq_some_iff.mp hbefore
    obtain ⟨hk', hkeq'⟩ := List.getElem?_eq_some_iff.mp hafter
    have hstep := List.isChain_iff_getElem.mp hpasses k hk'
    rw [hkeq, hkeq'] at hstep
    apply floor_advances hstep
    intro hsame
    obtain ⟨old, hold⟩ := Option.isSome_iff_exists.mp
      (hread before (List.mem_of_getElem? hbefore))
    obtain ⟨new, hnew⟩ := Option.isSome_iff_exists.mp (hread after (List.mem_of_getElem? hafter))
    rw [recordFloor_eq hold, recordFloor_eq hnew]
    exact hkept k hik hkj before after old new hbefore hafter hold hnew hsame
  have hadvances := Ratchet.advances_of_steps hij hsteps ha hb
  apply Ratchet.view_eq_of_measure_eq hadvances
  rw [recordFloor_eq hv, recordFloor_eq hw, hfloor]

/-- A record as the boundary test writes it, without its comment. -/
def record (version types : String) : String :=
  "version = \"" ++ version ++ "\"\ntypes-fingerprint = \"" ++ types ++
    "\"\nlanguage-fingerprint = \"c\"\n"

theorem record_0_9 : version (record "0.9" "a") = some ⟨0, 9⟩ ∧
    fingerprints (record "0.9" "a") = [some ['a'], some ['c']] := by
  decide

theorem record_1_2 : version (record "1.2" "b") = some ⟨1, 2⟩ ∧
    fingerprints (record "1.2" "b") = [some ['b'], some ['c']] := by
  decide

theorem record_1_3 : version (record "1.3" "b") = some ⟨1, 3⟩ ∧
    fingerprints (record "1.3" "b") = [some ['b'], some ['c']] := by
  decide

theorem record_2_0 : version (record "2.0" "a") = some ⟨2, 0⟩ ∧
    fingerprints (record "2.0" "a") = [some ['a'], some ['c']] := by
  decide

/-- The boundary moves with 1.2 and with 2.0, and moves back there. -/
def releases : List String :=
  [record "0.9" "a", record "1.2" "b", record "1.3" "b", record "2.0" "a"]

theorem releases_pass :
    releases.IsChain fun before after => (verdict before after).isRefused = false := by
  refine List.isChain_cons_cons.mpr ⟨passes_iff.mpr (Or.inr ?_), List.isChain_cons_cons.mpr
    ⟨passes_iff.mpr (Or.inl ?_), List.isChain_cons_cons.mpr
      ⟨passes_iff.mpr (Or.inr ?_), List.isChain_singleton _⟩⟩⟩
  · exact ⟨⟨0, 9⟩, ⟨1, 2⟩, record_0_9.1, record_1_2.1, by decide, by decide⟩
  · rw [record_1_2.2, record_1_3.2]
  · exact ⟨⟨1, 3⟩, ⟨2, 0⟩, record_1_3.1, record_2_0.1, by decide, by decide⟩

/-- From 1.0 a raised minor keeps the floor, and so the fingerprints, while those of the record
    before are others. -/
theorem raised_minor_same_fingerprints :
    fingerprints (record "0.9" "a") ≠ fingerprints (record "1.2" "b") ∧
      fingerprints (record "1.2" "b") = fingerprints (record "1.3" "b") := by
  refine ⟨by rw [record_0_9.2, record_1_2.2]; decide, ?_⟩
  have hread : ∀ r ∈ releases, (version r).isSome := by
    simp [releases, record_0_9.1, record_1_2.1, record_1_3.1, record_2_0.1]
  refine same_floor_same_fingerprints releases hread releases_pass
    (i := 1) (j := 2) (by decide) ?_ rfl rfl record_1_2.1 record_1_3.1 (by decide)
  intro k hle hk before after old new hbefore hafter hold hnew _
  have hone : k = 1 := by omega
  subst hone
  have hfirst : record "1.2" "b" = before := Option.some.inj hbefore
  have hsecond : record "1.3" "b" = after := Option.some.inj hafter
  rw [← hfirst, record_1_2.1] at hold
  rw [← hsecond, record_1_3.1] at hnew
  rw [← Option.some.inj hold, ← Option.some.inj hnew]
  decide

theorem record_0_2 (types : String) (h : types = "a" ∨ types = "b") :
    version (record "0.2" types) = some ⟨0, 2⟩ ∧
      fingerprints (record "0.2" types) = [some types.toList, some ['c']] := by
  rcases h with rfl | rfl
  · decide
  · decide

theorem record_0_3 : version (record "0.3" "b") = some ⟨0, 3⟩ ∧
    fingerprints (record "0.3" "b") = [some ['b'], some ['c']] := by
  decide

/-- The version falls back where nothing moved, and then names two boundaries. -/
theorem reused_version :
    ∃ history : List String,
      (∀ r ∈ history, (version r).isSome ∧ ∀ f ∈ fingerprints r, f.isSome) ∧
      (history.IsChain fun before after => (verdict before after).isRefused = false) ∧
      ∃ a ∈ history, ∃ b ∈ history, ∃ v w, version a = some v ∧ version b = some w ∧
        v.floor = w.floor ∧ fingerprints a ≠ fingerprints b := by
  obtain ⟨hversionA, hprintsA⟩ := record_0_2 "a" (Or.inl rfl)
  obtain ⟨hversionB, hprintsB⟩ := record_0_2 "b" (Or.inr rfl)
  obtain ⟨hversion3, hprints3⟩ := record_0_3
  refine ⟨[record "0.2" "a", record "0.3" "b", record "0.2" "b"], ?_, ?_, record "0.2" "a",
    List.mem_cons_self, record "0.2" "b", by simp, ⟨0, 2⟩, ⟨0, 2⟩, hversionA, hversionB, rfl, ?_⟩
  · simp [hversionA, hprintsA, hversionB, hprintsB, hversion3, hprints3]
  · refine List.isChain_cons_cons.mpr ⟨passes_iff.mpr (Or.inr ?_), List.isChain_cons_cons.mpr
      ⟨passes_iff.mpr (Or.inl ?_), List.isChain_singleton _⟩⟩
    · exact ⟨⟨0, 2⟩, ⟨0, 3⟩, hversionA, hversion3, by decide, by decide⟩
    · rw [hprints3, hprintsB]
      decide
  · rw [hprintsA, hprintsB]
    decide

end Stiles.CheckAbi
