import Mathlib.Data.List.Basic

/-
  Batches of items that are handled one after the other.

  The outcome of an item is `done`, `failed` or `fatal`. A batch always ends at a fatal item. At a
  failed one it ends if it stops on failures, and goes on otherwise. `settle` is the list of the
  items a batch settled (done or failed), and the fatal error that ended it, if one did.

  * `settle_prefix`: what is settled is a prefix of the batch.
  * `settle_all_done`, `done_of_no_failure`: a batch of done items settles them all, and it is the
    only kind that ends without a failure.
  * `settle_stop_at`: a batch that stops on failures settles the items up to the first failed one.
  * `settle_keepGoing`: one that does not settles every item before the first fatal one.
  * `failures_settle_stop`: of the failures, a batch that stops settles the first.
-/

namespace Batch

variable {δ φ ε : Type*}

inductive Outcome (δ φ ε : Type*) where
  | done (result : δ)
  | failed (failure : φ)
  | fatal (error : ε)

namespace Outcome

def done? : Outcome δ φ ε → Option δ
  | .done d => some d
  | _ => none

def failed? : Outcome δ φ ε → Option φ
  | .failed f => some f
  | _ => none

def fatal? : Outcome δ φ ε → Option ε
  | .fatal e => some e
  | _ => none

end Outcome

/-- What a batch settles, and the error that ended it. -/
def settle (stop : Bool) : List (Outcome δ φ ε) → List (Outcome δ φ ε) × Option ε
  | [] => ([], none)
  | .done d :: rest => (.done d :: (settle stop rest).1, (settle stop rest).2)
  | .failed f :: rest =>
    if stop then ([.failed f], none)
    else (.failed f :: (settle stop rest).1, (settle stop rest).2)
  | .fatal e :: _ => ([], some e)

/-- The results of the items that are done. -/
def dones (os : List (Outcome δ φ ε)) : List δ := os.filterMap Outcome.done?

/-- The failures of the items that failed. -/
def failures (os : List (Outcome δ φ ε)) : List φ := os.filterMap Outcome.failed?

@[simp] theorem dones_append (xs ys : List (Outcome δ φ ε)) :
    dones (xs ++ ys) = dones xs ++ dones ys :=
  List.filterMap_append

@[simp] theorem failures_append (xs ys : List (Outcome δ φ ε)) :
    failures (xs ++ ys) = failures xs ++ failures ys :=
  List.filterMap_append

@[simp] theorem dones_done (d : δ) : dones [(.done d : Outcome δ φ ε)] = [d] := rfl

@[simp] theorem dones_failed (f : φ) : dones [(.failed f : Outcome δ φ ε)] = [] := rfl

@[simp] theorem failures_done (d : δ) : failures [(.done d : Outcome δ φ ε)] = [] := rfl

@[simp] theorem failures_failed (f : φ) : failures [(.failed f : Outcome δ φ ε)] = [f] := rfl

theorem mem_dones {os : List (Outcome δ φ ε)} {d : δ} : d ∈ dones os ↔ .done d ∈ os := by
  unfold dones
  rw [List.mem_filterMap]
  constructor
  · rintro ⟨o, ho, hd⟩
    cases o <;> simp [Outcome.done?] at hd
    exact hd ▸ ho
  · intro h
    exact ⟨_, h, rfl⟩

/-- What is settled is a prefix of the batch. -/
theorem settle_prefix (stop : Bool) (os : List (Outcome δ φ ε)) : (settle stop os).1 <+: os := by
  induction os with
  | nil => exact List.prefix_rfl
  | cons o rest ih =>
    cases o with
    | done d => exact (List.prefix_cons_inj _).mpr ih
    | failed f =>
      unfold settle
      split
      · exact ⟨rest, rfl⟩
      · exact (List.prefix_cons_inj _).mpr ih
    | fatal e => exact List.nil_prefix

/-- A batch that stops on failures settles the items up to the first failed one. -/
theorem settle_stop_at {before after : List (Outcome δ φ ε)} {f : φ}
    (hbefore : ∀ o ∈ before, ∃ d, o = .done d) :
    settle true (before ++ .failed f :: after) = (before ++ [.failed f], none) := by
  induction before with
  | nil => simp [settle]
  | cons o before ih =>
    obtain ⟨d, rfl⟩ := hbefore o List.mem_cons_self
    have hrest := ih fun p hp => hbefore p (List.mem_cons_of_mem _ hp)
    rw [List.cons_append, settle, hrest]
    rfl

/-- Without a failed or a fatal item, every item is settled. -/
theorem settle_all_done (stop : Bool) {os : List (Outcome δ φ ε)}
    (h : ∀ o ∈ os, ∃ d, o = .done d) : settle stop os = (os, none) := by
  induction os with
  | nil => rfl
  | cons o os ih =>
    obtain ⟨d, rfl⟩ := h o List.mem_cons_self
    rw [settle, ih fun p hp => h p (List.mem_cons_of_mem _ hp)]

theorem failures_of_done {os : List (Outcome δ φ ε)} (h : ∀ o ∈ os, ∃ d, o = .done d) :
    failures os = [] := by
  refine List.filterMap_eq_nil_iff.mpr fun o ho => ?_
  obtain ⟨d, rfl⟩ := h o ho
  rfl

/-- A batch that ends well and settles no failure had nothing but done items. -/
theorem done_of_no_failure {stop : Bool} {os : List (Outcome δ φ ε)}
    (h : (settle stop os).2 = none) (hf : failures (settle stop os).1 = []) :
    ∀ o ∈ os, ∃ d, o = .done d := by
  induction os with
  | nil => simp
  | cons o rest ih =>
    cases o with
    | done d =>
      have hrest := ih h (by simpa [settle, failures, Outcome.failed?] using hf)
      rintro o (_ | ⟨_, ho⟩)
      · exact ⟨d, rfl⟩
      · exact hrest o ho
    | failed f =>
      unfold settle at hf
      split at hf <;> simp [failures, Outcome.failed?] at hf
    | fatal e => simp [settle] at h

/-- A batch that goes on after failures settles every item before the first fatal one. -/
theorem settle_keepGoing (os : List (Outcome δ φ ε)) :
    match (settle false os).2 with
    | none => (settle false os).1 = os ∧ ∀ o ∈ os, o.fatal? = none
    | some e => ∃ after, os = (settle false os).1 ++ .fatal e :: after ∧
        ∀ o ∈ (settle false os).1, o.fatal? = none := by
  induction os with
  | nil => simp [settle]
  | cons o rest ih =>
    cases o with
    | fatal e => exact ⟨rest, rfl, by simp [settle]⟩
    | done d =>
      simp only [settle]
      cases he : (settle false rest).2 with
      | none =>
        rw [he] at ih
        exact ⟨by rw [ih.1], by simpa [Outcome.fatal?] using ih.2⟩
      | some e =>
        rw [he] at ih
        obtain ⟨after, hsplit, hnone⟩ := ih
        exact ⟨after, congrArg _ hsplit, by simpa [Outcome.fatal?] using hnone⟩
    | failed f =>
      simp only [settle, Bool.false_eq_true, if_false]
      cases he : (settle false rest).2 with
      | none =>
        rw [he] at ih
        exact ⟨by rw [ih.1], by simpa [Outcome.fatal?] using ih.2⟩
      | some e =>
        rw [he] at ih
        obtain ⟨after, hsplit, hnone⟩ := ih
        exact ⟨after, congrArg _ hsplit, by simpa [Outcome.fatal?] using hnone⟩

/-- The items before the first fatal one are what a batch that goes on settles. -/
theorem settle_keepGoing_at {before : List (Outcome δ φ ε)} (after : List (Outcome δ φ ε)) (e : ε)
    (hbefore : ∀ o ∈ before, o.fatal? = none) :
    settle false (before ++ .fatal e :: after) = (before, some e) := by
  induction before with
  | nil => rfl
  | cons o before ih =>
    have hrest := ih fun p hp => hbefore p (List.mem_cons_of_mem _ hp)
    cases o with
    | done d => rw [List.cons_append, settle, hrest]
    | failed f =>
      rw [List.cons_append, settle, hrest]
      rfl
    | fatal x => simp [Outcome.fatal?] at hbefore

/-- A batch that stops on failures and ends well settles the first failure there is. -/
theorem failures_settle_stop {os : List (Outcome δ φ ε)} (h : (settle true os).2 = none) :
    failures (settle true os).1 = (failures os).take 1 := by
  induction os with
  | nil => rfl
  | cons o rest ih =>
    cases o with
    | done d => exact ih h
    | failed f => rfl
    | fatal e => cases h

end Batch
