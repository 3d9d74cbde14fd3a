import Stiles.General.Calls

/-
  A callee that is called with one argument after the other, up to its first error.

  `perform` collects what the calls find. Where `Calls.solo` lists the answers of every call,
  `perform` ends at the first error, as a callee that panics ends.

  * `perform_append`: a run goes on from what the run before it left.
  * `stop_runCalls_iff`: a run over many callees succeeds if each of them does alone, whatever the
    order in which their calls are mixed.
-/

namespace Calls

variable {ι α β γ ε M : Type*}

/-- The calls, one after the other, with their findings behind those in `out`. -/
def perform (call : M → α → Except ε (List β) × M) :
    List α → M → List β → Except ε (List β) × M
  | [], m, out => (.ok out, m)
  | a :: as, m, out =>
    match call m a with
    | (.ok ds, m) => perform call as m (out ++ ds)
    | (.error x, m) => (.error x, m)

variable (call : M → α → Except ε (List β) × M)

theorem perform_cons_ok {a : α} {as : List α} {m : M} {out ds : List β}
    (h : (call m a).1 = .ok ds) :
    perform call (a :: as) m out = perform call as (call m a).2 (out ++ ds) := by
  rw [perform]
  generalize call m a = called at h
  obtain ⟨answer, m'⟩ := called
  rw [show answer = .ok ds from h]

theorem perform_cons_error {a : α} {as : List α} {m : M} {out : List β} {x : ε}
    (h : (call m a).1 = .error x) :
    perform call (a :: as) m out = (.error x, (call m a).2) := by
  rw [perform]
  generalize call m a = called at h
  obtain ⟨answer, m'⟩ := called
  rw [show answer = .error x from h]

/-- What is collected already only stands in front. -/
theorem perform_out (as : List α) (m : M) (out : List β) :
    perform call as m out =
      ((perform call as m []).1.map (out ++ ·), (perform call as m []).2) := by
  induction as generalizing m out with
  | nil => simp [perform, Except.map]
  | cons a as ih =>
    cases h : (call m a).1 with
    | error x =>
      rw [perform_cons_error call h, perform_cons_error call h]
      rfl
    | ok ds =>
      rw [perform_cons_ok call h, perform_cons_ok call h, ih, ih _ ([] ++ ds)]
      cases (perform call as (call m a).2 []).1 with
      | error x => rfl
      | ok found => simp [Except.map]

/-- A run of `xs ++ ys` goes on to `ys` from what the run of `xs` left. -/
theorem perform_append (xs ys : List α) (m : M) (out : List β) :
    perform call (xs ++ ys) m out =
      match perform call xs m out with
      | (.ok found, m) => perform call ys m found
      | (.error x, m) => (.error x, m) := by
  induction xs generalizing m out with
  | nil => rfl
  | cons a xs ih =>
    rw [List.cons_append]
    cases h : (call m a).1 with
    | error x => rw [perform_cons_error call h, perform_cons_error call h]
    | ok ds => rw [perform_cons_ok call h, perform_cons_ok call h, ih]

/-- The callee that only translates its arguments. -/
theorem perform_map (f : γ → α) (cs : List γ) (m : M) (out : List β) :
    perform (fun m c => call m (f c)) cs m out = perform call (cs.map f) m out := by
  induction cs generalizing m out with
  | nil => rfl
  | cons c cs ih =>
    rw [List.map_cons]
    cases h : (call m (f c)).1 with
    | error x =>
      rw [perform_cons_error call h, perform_cons_error (fun m c => call m (f c)) h]
    | ok ds => rw [perform_cons_ok call h, perform_cons_ok (fun m c => call m (f c)) h, ih]

/-! ## A run and the answers of its calls -/

/-- Every call succeeded. -/
def Succeeds (answers : List (Except ε (List β))) : Prop :=
  ∀ answer ∈ answers, ∃ ds, answer = .ok ds

/-- What the calls that succeeded found. -/
def collected (answers : List (Except ε (List β))) : List β :=
  answers.flatMap fun answer => answer.toOption.getD []

theorem map_append_eq_ok {answer : Except ε (List β)} {ds found : List β} :
    answer.map (ds ++ ·) = .ok found ↔ ∃ rest, answer = .ok rest ∧ found = ds ++ rest := by
  cases answer <;> simp [Except.map, eq_comm]

theorem succeeds_cons_ok {ds : List β} {answers : List (Except ε (List β))} :
    Succeeds (.ok ds :: answers) ↔ Succeeds answers := by
  simp [Succeeds]

theorem not_succeeds_cons_error {x : ε} {answers : List (Except ε (List β))} :
    ¬Succeeds (.error x :: answers) := by
  simp [Succeeds]

theorem collected_cons_ok (ds : List β) (answers : List (Except ε (List β))) :
    collected (.ok ds :: answers) = ds ++ collected answers := rfl

/-! ## Many callees -/

variable [DecidableEq ι]

/-- The arguments of one callee among the calls asked for. -/
def argsFor (i : ι) (cs : List (ι × α)) : List α := (cs.filter fun c => c.1 = i).map Prod.snd

theorem argsFor_cons_same (i : ι) (a : α) (cs : List (ι × α)) :
    argsFor i ((i, a) :: cs) = a :: argsFor i cs := by
  simp [argsFor]

theorem argsFor_cons_other {i j : ι} (h : j ≠ i) (a : α) (cs : List (ι × α)) :
    argsFor i ((j, a) :: cs) = argsFor i cs := by
  simp [argsFor, h]

/-- A run over many callees succeeds exactly if each of them succeeds alone. -/
theorem stop_runCalls_iff (cs : List (ι × α)) (cells : ι → M) :
    stop (runCalls call cs cells).1 = none ↔
      ∀ i, Succeeds (solo call (cells i) (argsFor i cs)) := by
  induction cs generalizing cells with
  | nil => simp [runCalls, argsFor, solo, Succeeds]
  | cons c cs ih =>
    obtain ⟨j, a⟩ := c
    cases h : (call (cells j) a).1 with
    | error x =>
      rw [runCalls_cons_error call h]
      simp only [stop_cons, Event.error?, Option.some_or, reduceCtorEq, false_iff, not_forall]
      refine ⟨j, fun hall => ?_⟩
      rw [argsFor_cons_same, solo, h] at hall
      exact not_succeeds_cons_error hall
    | ok ds =>
      rw [runCalls_cons_ok call h]
      simp only [stop_cons, Event.error?, Option.none_or]
      rw [ih]
      refine forall_congr' fun i => ?_
      by_cases hij : j = i
      · subst hij
        rw [argsFor_cons_same, solo, h, Function.update_self, succeeds_cons_ok]
      · rw [argsFor_cons_other hij, Function.update_of_ne (Ne.symm hij)]

end Calls
