import Mathlib.Data.List.Basic
import Stiles.General.Machine

/-
  A directory that several parties install into.

  A slot is empty or holds a directory. Whoever finds it checks it with a test `accepts`, which
  looks at a part of the entries only; what it wants is a `whole` directory. `Effect` is what one
  well behaved step does to the slot: it takes apart only what the test refuses, and places whole
  directories only.

  * `Effect.sound`: then what the test accepts is whole.
  * `Effect.settled`: and a directory that the test accepts stays as it is.
  * `run_settled`: over whole runs, where every step that meets a guard has such an effect.
-/

namespace SharedSlot

variable {ε : Type*}

/-- A directory, marked with the party that placed it. -/
structure Directory (ε : Type*) where
  owner : Option Nat
  entries : List ε
deriving DecidableEq

/-- The directory in the slot passes the test. -/
def Accepted (accepts : List ε → Prop) (slot : Option (Directory ε)) : Prop :=
  ∃ directory, slot = some directory ∧ accepts directory.entries

/-- What a step does to the slot. -/
inductive Effect (accepts whole : List ε → Prop) :
    Option (Directory ε) → Option (Directory ε) → Prop
  | keep (slot) : Effect accepts whole slot slot
  | shrink (owner) (entries entries' : List ε) (before : ¬ accepts entries)
      (after : ¬ accepts entries') :
      Effect accepts whole (some ⟨owner, entries⟩) (some ⟨owner, entries'⟩)
  | remove (slot) (refused : ¬ Accepted accepts slot) : Effect accepts whole slot none
  | place (slot) (directory : Directory ε) (refused : ¬ Accepted accepts slot)
      (complete : whole directory.entries) : Effect accepts whole slot (some directory)

variable {accepts whole : List ε → Prop} {slot slot' : Option (Directory ε)}

/-- Whatever the test accepts is whole. -/
def Sound (accepts whole : List ε → Prop) (slot : Option (Directory ε)) : Prop :=
  ∀ directory, slot = some directory → accepts directory.entries → whole directory.entries

theorem not_accepted_none : ¬ Accepted accepts (none : Option (Directory ε)) := by
  rintro ⟨directory, h, _⟩
  cases h

theorem accepted_some {directory : Directory ε} :
    Accepted accepts (some directory) ↔ accepts directory.entries := by
  constructor
  · rintro ⟨d, h, ha⟩
    cases h
    exact ha
  · intro ha
    exact ⟨directory, rfl, ha⟩

theorem sound_of_not_accepted (h : ¬ Accepted accepts slot) : Sound accepts whole slot :=
  fun directory hslot ha => absurd ⟨directory, hslot, ha⟩ h

theorem Effect.sound (h : Effect accepts whole slot slot') (hsound : Sound accepts whole slot) :
    Sound accepts whole slot' := by
  cases h with
  | keep => exact hsound
  | shrink owner entries entries' before after =>
    exact sound_of_not_accepted fun ha => after (accepted_some.mp ha)
  | remove => exact sound_of_not_accepted not_accepted_none
  | place _ directory refused complete =>
    intro d hd _
    cases hd
    exact complete

/-- A step leaves a directory that the test accepts alone. -/
theorem Effect.settled (h : Effect accepts whole slot slot') (ha : Accepted accepts slot) :
    slot' = slot := by
  cases h with
  | keep => rfl
  | shrink owner entries entries' before after => exact absurd (accepted_some.mp ha) before
  | remove _ refused => exact absurd ha refused
  | place _ directory refused complete => exact absurd ha refused

/-- A directory that the test accepts outlives every run of steps that meet the guard. -/
theorem run_settled {σ α : Type*} {step : σ → α → Option σ} {guard : σ → α → Prop}
    (inv : σ → Prop) (slot : σ → Option (Directory ε))
    (hstep : ∀ s a s', inv s → guard s a → step s a = some s' →
      Effect accepts whole (slot s) (slot s') ∧ inv s')
    {s t : σ} {actions : List α} (hinv : inv s) (ha : Accepted accepts (slot s))
    (hmeets : Machine.Meets step guard s actions) (hrun : Machine.run step s actions = some t) :
    slot t = slot s := by
  have hkept : inv t ∧ slot t = slot s := by
    refine Machine.inv_of_meets (fun u => inv u ∧ slot u = slot s) ?_ ⟨hinv, rfl⟩ hmeets hrun
    rintro u a u' ⟨hu, hsame⟩ hguard hu'
    obtain ⟨heffect, hinv'⟩ := hstep u a u' hu hguard hu'
    refine ⟨hinv', ?_⟩
    rw [heffect.settled (by rw [hsame]; exact ha), hsame]
  exact hkept.2

end SharedSlot
