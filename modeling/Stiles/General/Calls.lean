import Mathlib.Logic.Function.Basic
import Mathlib.Data.List.Basic

/-
  Sequences of calls to a family of stateful callees.

  `cells i` is the current state of callee `i`. One call `call m a` answers a list of findings or
  an error, and leaves the callee in a new state. `runCalls` makes a list of calls in order and
  stops after the first one that answers an error. It returns the events (one for each call made,
  with its answer) and the final states.

  What is proved:
  * `runCalls_append`: a run of `xs ++ ys` is the run of `xs`, then the run of `ys` unless the
    first one stopped.
  * `labels_prefix`, `labels_of_stop_none`, `events_of_stop_some`: which calls were made.
  * `runCalls_cells`, `answersOf_runCalls`: callee `i` sees its own calls only, so its final state
    and its answers depend on its first state and its own arguments (`solo`).
  * `runCalls_judged`: a family whose answers are the answers of another family, passed through a
    `judge` that keeps errors, makes the same calls up to the first answer that is judged an error.
-/

namespace Calls

variable {ι α β ε M M' : Type*}

/-- One call that a run made: the callee, its argument and what it answered. -/
structure Event (ι α β ε : Type*) where
  callee : ι
  arg : α
  answer : Except ε (List β)

namespace Event

/-- Which call the event is, without its answer. -/
def label (e : Event ι α β ε) : ι × α := (e.callee, e.arg)

/-- The findings of one call; a call that answered an error found nothing. -/
def found (e : Event ι α β ε) : List β :=
  match e.answer with
  | .ok ds => ds
  | .error _ => []

/-- The error of one call, if it answered one. -/
def error? (e : Event ι α β ε) : Option ε :=
  match e.answer with
  | .ok _ => none
  | .error x => some x

theorem error?_eq_some {e : Event ι α β ε} {x : ε} :
    e.error? = some x ↔ e.answer = .error x := by
  unfold error?
  split <;> simp_all

theorem error?_eq_none {e : Event ι α β ε} :
    e.error? = none ↔ e.answer = .ok e.found := by
  unfold error? found
  split <;> simp_all

end Event

/-- Everything the calls found, in call order. -/
def found (es : List (Event ι α β ε)) : List β := es.flatMap Event.found

/-- The first error that a call answered. -/
def stop (es : List (Event ι α β ε)) : Option ε := es.findSome? Event.error?

@[simp] theorem found_nil : found ([] : List (Event ι α β ε)) = [] := rfl

@[simp] theorem found_cons (e : Event ι α β ε) (es : List (Event ι α β ε)) :
    found (e :: es) = e.found ++ found es := rfl

@[simp] theorem found_append (xs ys : List (Event ι α β ε)) :
    found (xs ++ ys) = found xs ++ found ys := by
  simp [found]

@[simp] theorem stop_nil : stop ([] : List (Event ι α β ε)) = none := rfl

theorem stop_cons (e : Event ι α β ε) (es : List (Event ι α β ε)) :
    stop (e :: es) = e.error?.or (stop es) := by
  unfold stop
  rw [List.findSome?_cons]
  cases e.error? <;> rfl

theorem stop_append (xs ys : List (Event ι α β ε)) :
    stop (xs ++ ys) = (stop xs).or (stop ys) := by
  simp [stop, List.findSome?_append]

theorem stop_eq_none {es : List (Event ι α β ε)} :
    stop es = none ↔ ∀ e ∈ es, e.answer = .ok e.found := by
  simp only [stop, List.findSome?_eq_none_iff, Event.error?_eq_none]

/-- Every finding of the calls with the callee that found it. -/
def findings (es : List (Event ι α β ε)) : List (ι × β) :=
  es.flatMap fun e => e.found.map fun d => (e.callee, d)

theorem findings_map_snd (es : List (Event ι α β ε)) : (findings es).map Prod.snd = found es := by
  unfold findings found
  rw [List.map_flatMap]
  simp [Function.comp_def]

/-! ## Cutting events at the first error -/

/-- The events up to and including the first one that answered an error. -/
def cut : List (Event ι α β ε) → List (Event ι α β ε)
  | [] => []
  | e :: es =>
    match e.answer with
    | .error _ => [e]
    | .ok _ => e :: cut es

theorem cut_of_stop_none {es : List (Event ι α β ε)} (h : stop es = none) : cut es = es := by
  induction es with
  | nil => rfl
  | cons e es ih =>
    have he := stop_eq_none.mp h e List.mem_cons_self
    have hs : stop es = none := stop_eq_none.mpr
      fun x hx => stop_eq_none.mp h x (List.mem_cons_of_mem _ hx)
    rw [cut, he]
    simp [ih hs]

/-- Cutting keeps everything before the first error. -/
theorem cut_append_error {before : List (Event ι α β ε)} {e : Event ι α β ε} {x : ε}
    (hb : stop before = none) (he : e.answer = .error x) (after : List (Event ι α β ε)) :
    cut (before ++ e :: after) = before ++ [e] := by
  induction before with
  | nil => simp [cut, he]
  | cons b before ih =>
    have h := stop_eq_none.mp hb b List.mem_cons_self
    have hs : stop before = none := stop_eq_none.mpr
      fun y hy => stop_eq_none.mp hb y (List.mem_cons_of_mem _ hy)
    rw [List.cons_append, cut, h]
    simp [ih hs]

/-! ## The run -/

variable [DecidableEq ι]

/-- Makes the calls in order, and stops after the first one that answers an error. -/
def runCalls (call : M → α → Except ε (List β) × M) :
    List (ι × α) → (ι → M) → List (Event ι α β ε) × (ι → M)
  | [], cells => ([], cells)
  | (i, a) :: rest, cells =>
    match call (cells i) a with
    | (.error x, m) => ([⟨i, a, .error x⟩], Function.update cells i m)
    | (.ok ds, m) =>
      let next := runCalls call rest (Function.update cells i m)
      (⟨i, a, .ok ds⟩ :: next.1, next.2)

variable (call : M → α → Except ε (List β) × M)

theorem runCalls_cons_error {i : ι} {a : α} {rest : List (ι × α)} {cells : ι → M} {x : ε}
    (h : (call (cells i) a).1 = .error x) :
    runCalls call ((i, a) :: rest) cells =
      ([⟨i, a, .error x⟩], Function.update cells i (call (cells i) a).2) := by
  rw [runCalls]
  split <;> simp_all

theorem runCalls_cons_ok {i : ι} {a : α} {rest : List (ι × α)} {cells : ι → M} {ds : List β}
    (h : (call (cells i) a).1 = .ok ds) :
    runCalls call ((i, a) :: rest) cells =
      (⟨i, a, .ok ds⟩ ::
          (runCalls call rest (Function.update cells i (call (cells i) a).2)).1,
        (runCalls call rest (Function.update cells i (call (cells i) a).2)).2) := by
  rw [runCalls]
  split <;> simp_all

/-- A run of `xs ++ ys` goes on to `ys` exactly when no call of `xs` answered an error. -/
theorem runCalls_append (xs ys : List (ι × α)) (cells : ι → M) :
    runCalls call (xs ++ ys) cells =
      match stop (runCalls call xs cells).1 with
      | some _ => runCalls call xs cells
      | none =>
        ((runCalls call xs cells).1 ++ (runCalls call ys (runCalls call xs cells).2).1,
          (runCalls call ys (runCalls call xs cells).2).2) := by
  induction xs generalizing cells with
  | nil => simp [runCalls]
  | cons c xs ih =>
    obtain ⟨i, a⟩ := c
    rw [List.cons_append]
    cases h : (call (cells i) a).1 with
    | error x =>
      rw [runCalls_cons_error call h, runCalls_cons_error call h]
      simp [stop_cons, Event.error?]
    | ok ds =>
      rw [runCalls_cons_ok call h, runCalls_cons_ok call h, ih]
      simp only [stop_cons, Event.error?, Option.none_or]
      split <;> simp

/-- The calls made are a prefix of the calls asked for. -/
theorem labels_prefix (cs : List (ι × α)) (cells : ι → M) :
    (runCalls call cs cells).1.map Event.label <+: cs := by
  induction cs generalizing cells with
  | nil => exact List.prefix_rfl
  | cons c cs ih =>
    obtain ⟨i, a⟩ := c
    cases h : (call (cells i) a).1 with
    | error x =>
      rw [runCalls_cons_error call h]
      exact ⟨cs, rfl⟩
    | ok ds =>
      rw [runCalls_cons_ok call h]
      exact List.prefix_cons_inj _ |>.mpr (ih _)

/-- A run without an error made every call asked for. -/
theorem labels_of_stop_none (cs : List (ι × α)) (cells : ι → M)
    (hs : stop (runCalls call cs cells).1 = none) :
    (runCalls call cs cells).1.map Event.label = cs := by
  induction cs generalizing cells with
  | nil => rfl
  | cons c cs ih =>
    obtain ⟨i, a⟩ := c
    cases h : (call (cells i) a).1 with
    | error x =>
      rw [runCalls_cons_error call h] at hs
      simp [stop_cons, Event.error?] at hs
    | ok ds =>
      rw [runCalls_cons_ok call h] at hs ⊢
      simp only [stop_cons, Event.error?, Option.none_or] at hs
      simp only [List.map_cons, Event.label, List.cons.injEq, true_and]
      exact ih _ hs

/-- A run with an error: every call before the last one succeeded, and the last one answered it. -/
theorem events_of_stop_some (cs : List (ι × α)) (cells : ι → M) {x : ε}
    (hs : stop (runCalls call cs cells).1 = some x) :
    ∃ before last, (runCalls call cs cells).1 = before ++ [last] ∧ last.answer = .error x ∧
      ∀ e ∈ before, e.answer = .ok e.found := by
  induction cs generalizing cells with
  | nil => simp [runCalls] at hs
  | cons c cs ih =>
    obtain ⟨i, a⟩ := c
    cases h : (call (cells i) a).1 with
    | error y =>
      rw [runCalls_cons_error call h] at hs ⊢
      simp only [stop_cons, Event.error?, Option.some_or, Option.some.injEq] at hs
      exact ⟨[], _, rfl, by rw [hs], by simp⟩
    | ok ds =>
      rw [runCalls_cons_ok call h] at hs ⊢
      simp only [stop_cons, Event.error?, Option.none_or] at hs
      obtain ⟨before, last, he, hl, hb⟩ := ih _ hs
      refine ⟨⟨i, a, .ok ds⟩ :: before, last, by rw [he]; rfl, hl, ?_⟩
      intro e hmem
      rcases List.mem_cons.mp hmem with rfl | hmem
      · rfl
      · exact hb e hmem

/-- Every call before another one succeeded. -/
theorem ok_before (cs : List (ι × α)) (cells : ι → M) {before after : List (Event ι α β ε)}
    {e : Event ι α β ε} (h : (runCalls call cs cells).1 = before ++ e :: after) :
    ∀ b ∈ before, b.answer = .ok b.found := by
  cases hs : stop (runCalls call cs cells).1 with
  | none =>
    intro b hb
    refine stop_eq_none.mp hs b ?_
    rw [h]
    exact List.mem_append_left _ hb
  | some x =>
    obtain ⟨before', last, heq, _, hok⟩ := events_of_stop_some call cs cells hs
    intro b hb
    refine hok b ?_
    have hdrop := congrArg List.dropLast (h.symm.trans heq)
    rw [List.dropLast_concat, List.dropLast_append_of_ne_nil (List.cons_ne_nil _ _)] at hdrop
    rw [← hdrop]
    exact List.mem_append_left _ hb

/-- Only the last call of a run can be an error, so cutting the run changes nothing. -/
theorem cut_runCalls (cs : List (ι × α)) (cells : ι → M) :
    cut (runCalls call cs cells).1 = (runCalls call cs cells).1 := by
  cases hs : stop (runCalls call cs cells).1 with
  | none => exact cut_of_stop_none hs
  | some x =>
    obtain ⟨before, last, heq, hlast, hok⟩ := events_of_stop_some call cs cells hs
    rw [heq, cut_append_error (stop_eq_none.mpr hok) hlast]

/-! ## One callee of a run -/

/-- The arguments that callee `i` was called with, in call order. -/
def argsOf (i : ι) (es : List (Event ι α β ε)) : List α :=
  (es.filter fun e => e.callee = i).map Event.arg

/-- What callee `i` answered, in call order. -/
def answersOf (i : ι) (es : List (Event ι α β ε)) : List (Except ε (List β)) :=
  (es.filter fun e => e.callee = i).map Event.answer

/-- The answers of one callee that is called alone with the arguments `as`. -/
def solo (call : M → α → Except ε (List β) × M) : M → List α → List (Except ε (List β))
  | _, [] => []
  | m, a :: as => (call m a).1 :: solo call (call m a).2 as

theorem argsOf_cons (i : ι) (e : Event ι α β ε) (es : List (Event ι α β ε)) :
    argsOf i (e :: es) = if e.callee = i then e.arg :: argsOf i es else argsOf i es := by
  unfold argsOf
  rw [List.filter_cons]
  by_cases h : e.callee = i <;> simp [h]

theorem answersOf_cons (i : ι) (e : Event ι α β ε) (es : List (Event ι α β ε)) :
    answersOf i (e :: es) =
      if e.callee = i then e.answer :: answersOf i es else answersOf i es := by
  unfold answersOf
  rw [List.filter_cons]
  by_cases h : e.callee = i <;> simp [h]

/-- The arguments of callee `i` are read off the labels of the events. -/
theorem argsOf_eq_labels (i : ι) (es : List (Event ι α β ε)) :
    argsOf i es = ((es.map Event.label).filter fun c => c.1 = i).map Prod.snd := by
  induction es with
  | nil => rfl
  | cons e es ih =>
    rw [argsOf_cons, List.map_cons, List.filter_cons, ih]
    by_cases h : e.callee = i <;> simp [Event.label, h]

/-- Callee `i` answers as it would if it were called alone with the same arguments. -/
theorem answersOf_runCalls (cs : List (ι × α)) (cells : ι → M) (i : ι) :
    answersOf i (runCalls call cs cells).1 =
      solo call (cells i) (argsOf i (runCalls call cs cells).1) := by
  induction cs generalizing cells with
  | nil => rfl
  | cons c cs ih =>
    obtain ⟨j, a⟩ := c
    cases h : (call (cells j) a).1 with
    | error x =>
      rw [runCalls_cons_error call h, answersOf_cons, argsOf_cons]
      by_cases hij : j = i
      · subst hij; simp [answersOf, argsOf, solo, h]
      · simp [answersOf, argsOf, solo, hij]
    | ok ds =>
      rw [runCalls_cons_ok call h, answersOf_cons, argsOf_cons]
      simp only
      rw [ih]
      by_cases hij : j = i
      · subst hij; simp [solo, h]
      · simp [hij, Function.update_of_ne (Ne.symm hij)]

/-- A callee answers from the state that its own earlier calls left. -/
theorem answer_of_split (cs : List (ι × α)) (cells : ι → M) {before after : List (Event ι α β ε)}
    {e : Event ι α β ε} (h : (runCalls call cs cells).1 = before ++ e :: after) :
    e.answer = (call ((argsOf e.callee before).foldl (fun m a => (call m a).2)
      (cells e.callee)) e.arg).1 := by
  induction before generalizing cs cells with
  | nil =>
    cases cs with
    | nil => simp [runCalls] at h
    | cons c cs =>
      obtain ⟨j, a⟩ := c
      cases hans : (call (cells j) a).1 with
      | error x =>
        rw [runCalls_cons_error call hans, List.nil_append, List.cons.injEq] at h
        rw [← h.1]
        exact hans.symm
      | ok ds =>
        rw [runCalls_cons_ok call hans, List.nil_append, List.cons.injEq] at h
        rw [← h.1]
        exact hans.symm
  | cons b before ih =>
    cases cs with
    | nil => simp [runCalls] at h
    | cons c cs =>
      obtain ⟨j, a⟩ := c
      cases hans : (call (cells j) a).1 with
      | error x =>
        rw [runCalls_cons_error call hans, List.cons_append, List.cons.injEq] at h
        simp at h
      | ok ds =>
        rw [runCalls_cons_ok call hans, List.cons_append, List.cons.injEq] at h
        rw [ih cs _ h.2, argsOf_cons, ← h.1]
        by_cases hj : j = e.callee
        · simp [hj]
        · simp [hj, Function.update_of_ne (Ne.symm hj)]

/-- The findings of one callee come from its own answers. -/
theorem findings_filter (i : ι) (es : List (Event ι α β ε)) :
    ((findings es).filter fun f => f.1 = i).map Prod.snd =
      (answersOf i es).flatMap fun answer => answer.toOption.getD [] := by
  induction es with
  | nil => rfl
  | cons e es ih =>
    unfold findings at ih ⊢
    rw [List.flatMap_cons, List.filter_append, List.map_append, ih, answersOf_cons]
    have hfound : e.found = e.answer.toOption.getD [] := by
      unfold Event.found Except.toOption
      split <;> simp_all
    by_cases hi : e.callee = i
    · simp [hi, hfound, List.filter_map, Function.comp_def]
    · simp [hi, List.filter_map, Function.comp_def]

/-! ## A family whose answers are judged -/

/-- The event with its answer judged. -/
def Event.judged (judge : ι → α → Except ε (List β) → Except ε (List β)) (e : Event ι α β ε) :
    Event ι α β ε :=
  { e with answer := judge e.callee e.arg e.answer }

/-- Two families run in lockstep. `call'` answers what `call` answers, judged; an error stays an
    error. Then the run of `call'` is the judged run of `call`, cut after its first error. -/
theorem runCalls_judged {call' : M' → α → Except ε (List β) × M'} {R : ι → M → M' → Prop}
    (judge : ι → α → Except ε (List β) → Except ε (List β))
    (hcall : ∀ i a m m', R i m m' →
      (call' m' a).1 = judge i a (call m a).1 ∧ R i (call m a).2 (call' m' a).2)
    (herr : ∀ i a x, ∃ y, judge i a (.error x) = .error y)
    (cs : List (ι × α)) (cells : ι → M) (cells' : ι → M') (hR : ∀ i, R i (cells i) (cells' i)) :
    (runCalls call' cs cells').1 = cut ((runCalls call cs cells).1.map (Event.judged judge)) := by
  induction cs generalizing cells cells' with
  | nil => rfl
  | cons c cs ih =>
    obtain ⟨i, a⟩ := c
    obtain ⟨hans, hnext⟩ := hcall i a _ _ (hR i)
    have hR' : ∀ j, R j (Function.update cells i (call (cells i) a).2 j)
        (Function.update cells' i (call' (cells' i) a).2 j) := by
      intro j
      by_cases hj : j = i
      · subst hj; simpa using hnext
      · simpa [Function.update_of_ne hj] using hR j
    cases h : (call (cells i) a).1 with
    | error x =>
      obtain ⟨y, hy⟩ := herr i a x
      rw [h, hy] at hans
      rw [runCalls_cons_error call h, runCalls_cons_error call' hans]
      simp [Event.judged, cut, hy]
    | ok ds =>
      rw [h] at hans
      rw [runCalls_cons_ok call h]
      cases hj : judge i a (.ok ds) with
      | error y =>
        rw [hj] at hans
        rw [runCalls_cons_error call' hans]
        simp [Event.judged, cut, hj]
      | ok ds' =>
        rw [hj] at hans
        rw [runCalls_cons_ok call' hans]
        simp only [List.map_cons, cut, Event.judged, hj]
        rw [ih _ _ hR']

end Calls
