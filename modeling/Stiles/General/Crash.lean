import Mathlib.Data.List.GetD

/-
  Programs over a store that can be cut off after any of their steps.

  A program takes a store to a `Course`: its result, the store at its end, the store after each of
  its steps, and a log of what it did towards the outside. An error ends it, unless it is captured.
  `Prog.cut` is the store that a run leaves behind, cut off or not.

  `Triple P p Q C` says: from a store with `P`, the program ends with `Q` of its result and its
  store, and `C` holds of the store after every step. There is one rule for each way to build a
  program, and `Triple.cut` is what they are for.
-/

namespace Crash

variable {σ ε : Type*} {x α β : Type}

structure Course (σ ε : Type*) (x α : Type) where
  value : Except x α
  final : σ
  /-- The store after each step. -/
  trail : List σ
  log : List ε

/-- A program over the store `σ`, which logs `ε` and fails with `x`. -/
def Prog (σ ε : Type*) (x α : Type) := σ → Course σ ε x α

namespace Prog

/-- A look at the store. -/
def query (f : σ → Except x α) : Prog σ ε x α := fun s =>
  { value := f s, final := s, trail := [], log := [] }

def read (f : σ → α) : Prog σ ε x α := query fun s => .ok (f s)

/-- Something that is known without the store. -/
def lift (result : Except x α) : Prog σ ε x α := query fun _ => result

def bind (p : Prog σ ε x α) (f : α → Prog σ ε x β) : Prog σ ε x β := fun s =>
  match (p s).value with
  | .error e => { value := .error e, final := (p s).final, trail := (p s).trail, log := (p s).log }
  | .ok a =>
    let next := f a (p s).final
    { value := next.value
      final := next.final
      trail := (p s).trail ++ next.trail
      log := (p s).log ++ next.log }

instance instMonad : Monad (Prog σ ε x) where
  pure a := lift (.ok a)
  bind := bind

/-- One step, which changes the store or fails. -/
def step (f : σ → Except x σ) : Prog σ ε x Unit := fun s =>
  match f s with
  | .error e => { value := .error e, final := s, trail := [], log := [] }
  | .ok s' => { value := .ok (), final := s', trail := [s'], log := [] }

def emit (e : ε) : Prog σ ε x Unit := fun s =>
  { value := .ok (), final := s, trail := [], log := [e] }

/-- The result of a program, without failing. -/
def capture (p : Prog σ ε x α) : Prog σ ε x (Except x α) := fun s =>
  { value := .ok (p s).value, final := (p s).final, trail := (p s).trail, log := (p s).log }

def mapError (f : x → x) (p : Prog σ ε x α) : Prog σ ε x α := fun s =>
  { value := (p s).value.mapError f
    final := (p s).final
    trail := (p s).trail
    log := (p s).log }

def fail (e : x) : Prog σ ε x α := lift (.error e)

def ensure (condition : Bool) (e : x) : Prog σ ε x Unit :=
  lift (if condition then .ok () else .error e)

/-- `f` of every item, in order. -/
def each (f : β → Prog σ ε x Unit) : List β → Prog σ ε x Unit
  | [] => pure ()
  | b :: bs => do
    f b
    each f bs

/-- What a run leaves behind that is cut off after some steps, or not at all. -/
def cut (p : Prog σ ε x α) (s : σ) : Option Nat → σ
  | none => (p s).final
  | some steps => (s :: (p s).trail).getD steps (p s).final

theorem bind_of_error {p : Prog σ ε x α} {f : α → Prog σ ε x β} {s : σ} {e : x}
    (h : (p s).value = .error e) : ((p >>= f) s).value = .error e := by
  change (bind p f s).value = .error e
  rw [bind, h]

theorem bind_of_ok {p : Prog σ ε x α} {f : α → Prog σ ε x β} {s : σ} {a : α}
    (h : (p s).value = .ok a) : ((p >>= f) s).value = (f a (p s).final).value ∧
      ((p >>= f) s).final = (f a (p s).final).final := by
  change (bind p f s).value = _ ∧ (bind p f s).final = _
  rw [bind, h]
  exact ⟨rfl, rfl⟩

theorem bind_eq_ok {p : Prog σ ε x α} {f : α → Prog σ ε x β} {s : σ} {b : β} :
    ((p >>= f) s).value = .ok b ↔
      ∃ a, (p s).value = .ok a ∧ (f a (p s).final).value = .ok b := by
  cases h : (p s).value with
  | error e =>
    rw [bind_of_error h]
    exact iff_of_false (fun h => by cases h) fun ⟨_, h, _⟩ => by cases h
  | ok a =>
    rw [(bind_of_ok h).1]
    constructor
    · exact fun hb => ⟨a, rfl, hb⟩
    · rintro ⟨a', ha, hb⟩
      rwa [Except.ok.inj ha]

theorem read_bind (g : σ → α) (f : α → Prog σ ε x β) (s : σ) : (read g >>= f) s = f (g s) s := rfl

end Prog

def Triple (P : σ → Prop) (p : Prog σ ε x α) (Q : Except x α → σ → Prop) (C : σ → Prop) : Prop :=
  ∀ s, P s → Q (p s).value (p s).final ∧ ∀ t ∈ (p s).trail, C t

namespace Triple

variable {P P' R : σ → Prop} {p : Prog σ ε x α} {Q Q' : Except x α → σ → Prop} {C C' : σ → Prop}

/-! ## Consequence -/

theorem mono (h : Triple P p Q C) (hP : ∀ s, P' s → P s) (hQ : ∀ r s, Q r s → Q' r s)
    (hC : ∀ s, C s → C' s) : Triple P' p Q' C' := by
  intro s hs
  obtain ⟨hend, htrail⟩ := h s (hP s hs)
  exact ⟨hQ _ _ hend, fun t ht => hC t (htrail t ht)⟩

theorem mono_post (h : Triple P p Q C) (hQ : ∀ r s, Q r s → Q' r s) : Triple P p Q' C :=
  h.mono (fun _ hs => hs) hQ (fun _ hs => hs)

theorem mono_pre (h : Triple P p Q C) (hP : ∀ s, P' s → P s) : Triple P' p Q C :=
  h.mono hP (fun _ _ hs => hs) (fun _ hs => hs)

theorem mono_cut (h : Triple P p Q C) (hC : ∀ s, C s → C' s) : Triple P p Q C' :=
  h.mono (fun _ hs => hs) (fun _ _ hs => hs) hC

/-! ## The ways to build a program -/

theorem query {f : σ → Except x α} (h : ∀ s, P s → Q (f s) s) :
    Triple P (Prog.query f : Prog σ ε x α) Q C := by
  intro s hs
  exact ⟨h s hs, fun _ ht => absurd ht List.not_mem_nil⟩

theorem lift {result : Except x α} (h : ∀ s, P s → Q result s) :
    Triple P (Prog.lift result : Prog σ ε x α) Q C :=
  query h

theorem pure {a : α} (h : ∀ s, P s → Q (.ok a) s) :
    Triple P (Pure.pure a : Prog σ ε x α) Q C :=
  lift h

theorem bind {f : α → Prog σ ε x β} {Q : Except x β → σ → Prop} {M : Except x α → σ → Prop}
    (hp : Triple P p M C) (hf : ∀ a, Triple (M (.ok a)) (f a) Q C)
    (herror : ∀ e s, M (.error e) s → Q (.error e) s) : Triple P (p >>= f) Q C := by
  intro s hs
  obtain ⟨hend, htrail⟩ := hp s hs
  change Q (Prog.bind p f s).value (Prog.bind p f s).final ∧ ∀ t ∈ (Prog.bind p f s).trail, C t
  rw [Prog.bind]
  cases hvalue : (p s).value with
  | error e =>
    rw [hvalue] at hend
    exact ⟨herror e _ hend, htrail⟩
  | ok a =>
    rw [hvalue] at hend
    obtain ⟨hnext, hrest⟩ := hf a _ hend
    refine ⟨hnext, ?_⟩
    intro t ht
    rcases List.mem_append.mp ht with hfirst | hsecond
    · exact htrail t hfirst
    · exact hrest t hsecond

/-- A step that is possible. -/
theorem step {f : σ → Except x σ} {Q : Except x Unit → σ → Prop}
    (h : ∀ s, P s → ∃ s', f s = .ok s' ∧ Q (.ok ()) s' ∧ C s') :
    Triple P (Prog.step f : Prog σ ε x Unit) Q C := by
  intro s hs
  obtain ⟨s', hs', hend, hcut⟩ := h s hs
  rw [Prog.step, hs']
  refine ⟨hend, ?_⟩
  intro t ht
  rw [List.mem_singleton.mp ht]
  exact hcut

theorem read {f : σ → α} (h : ∀ s, P s → Q (.ok (f s)) s) :
    Triple P (Prog.read f : Prog σ ε x α) Q C :=
  query h

theorem emit {e : ε} {Q : Except x Unit → σ → Prop} (h : ∀ s, P s → Q (.ok ()) s) :
    Triple P (Prog.emit e : Prog σ ε x Unit) Q C := by
  intro s hs
  exact ⟨h s hs, fun _ ht => absurd ht List.not_mem_nil⟩

theorem mapError {f : x → x} (h : Triple P p (fun r s => Q (r.mapError f) s) C) :
    Triple P (p.mapError f) Q C :=
  fun s hs => h s hs

/-! ## The first part of a program -/

section

variable {f : α → Prog σ ε x β} {Q : Except x β → σ → Prop}

/-- A part that succeeds with a known result. -/
theorem bind_ok {a : α} {R : σ → Prop} (hp : Triple P p (fun r s => r = .ok a ∧ R s) C)
    (hf : Triple R (f a) Q C) : Triple P (p >>= f) Q C := by
  refine bind hp ?_ ?_
  · intro b s hs
    obtain ⟨hvalue, hrest⟩ := hs
    rw [Except.ok.inj hvalue]
    exact hf s hrest
  · intro e s hs
    exact absurd hs.1 nofun

/-- A part that fails with a known error. -/
theorem bind_error {e : x} {R : σ → Prop} (hp : Triple P p (fun r s => r = .error e ∧ R s) C)
    (h : ∀ s, R s → Q (.error e) s) : Triple P (p >>= f) Q C := by
  refine bind hp ?_ ?_
  · intro b s hs
    exact absurd hs.1 nofun
  · intro e' s hs
    obtain ⟨hvalue, hrest⟩ := hs
    rw [Except.error.inj hvalue]
    exact h s hrest

theorem capture_bind {γ : Type} {q : Prog σ ε x γ} {R : Except x γ → σ → Prop}
    {f : Except x γ → Prog σ ε x β} (hp : Triple P q R C)
    (hf : ∀ result, Triple (R result) (f result) Q C) : Triple P (q.capture >>= f) Q C := by
  intro s hs
  obtain ⟨hend, htrail⟩ := hp s hs
  obtain ⟨hnext, hrest⟩ := hf _ _ hend
  refine ⟨hnext, ?_⟩
  intro t ht
  rcases List.mem_append.mp ht with hfirst | hsecond
  · exact htrail t hfirst
  · exact hrest t hsecond

/-- A captured part with a known result. -/
theorem capture_bind_eq {γ : Type} {q : Prog σ ε x γ} {result : Except x γ} {R : σ → Prop}
    {f : Except x γ → Prog σ ε x β} (hp : Triple P q (fun r s => r = result ∧ R s) C)
    (hf : Triple R (f result) Q C) : Triple P (q.capture >>= f) Q C := by
  refine capture_bind hp fun r s hs => ?_
  rw [hs.1]
  exact hf s hs.2

theorem lift_bind {result : Except x α} (hok : ∀ a, result = .ok a → Triple P (f a) Q C)
    (herror : ∀ e, result = .error e → ∀ s, P s → Q (.error e) s) :
    Triple P (Prog.lift result >>= f) Q C := by
  refine bind (M := fun r s => r = result ∧ P s) (lift fun s hs => ⟨rfl, hs⟩) ?_ ?_
  · intro a s hs
    exact hok a hs.1.symm s hs.2
  · intro e s hs
    exact herror e hs.1.symm s hs.2

theorem read_bind {g : σ → α} (h : ∀ a, Triple (fun s => P s ∧ g s = a) (f a) Q C) :
    Triple P (Prog.read g >>= f) Q C := by
  refine bind (M := fun r s => r = .ok (g s) ∧ P s) (read fun s hs => ⟨rfl, hs⟩) ?_ nofun
  intro a s hs
  exact h a s ⟨hs.2, (Except.ok.inj hs.1).symm⟩

/-- A part that reads something known. -/
theorem read_bind_eq {g : σ → α} {a : α} (hg : ∀ s, P s → g s = a) (h : Triple P (f a) Q C) :
    Triple P (Prog.read g >>= f) Q C := by
  intro s hs
  rw [Prog.read_bind, hg s hs]
  exact h s hs

theorem emit_bind {e : ε} {f : Unit → Prog σ ε x β} (h : Triple P (f ()) Q C) :
    Triple P (Prog.emit e >>= f) Q C :=
  bind_ok (emit fun _ hs => ⟨rfl, hs⟩) h

theorem ensure_bind {condition : Bool} {e : x} {f : Unit → Prog σ ε x β}
    (hok : condition = true → Triple P (f ()) Q C)
    (herror : condition = false → ∀ s, P s → Q (.error e) s) :
    Triple P (Prog.ensure condition e >>= f) Q C := by
  refine lift_bind ?_ ?_
  · intro _ hcondition
    cases condition with
    | true => exact hok rfl
    | false => cases hcondition
  · intro e' hcondition
    cases condition with
    | true => cases hcondition
    | false =>
      rw [← Except.error.inj hcondition]
      exact herror rfl

end

/-- A loop, with an invariant that tells what is left to do. -/
theorem each {f : β → Prog σ ε x Unit} (I : List β → σ → Prop)
    (h : ∀ b bs, Triple (I (b :: bs)) (f b) (fun r s => r = .ok () ∧ I bs s) C) (bs : List β) :
    Triple (I bs) (Prog.each f bs) (fun r s => r = .ok () ∧ I [] s) C := by
  induction bs with
  | nil => exact pure fun s hs => ⟨rfl, hs⟩
  | cons b bs ih =>
    refine bind (h b bs) ?_ ?_
    · intro a
      exact ih.mono_pre fun s hs => hs.2
    · intro e s hs
      exact absurd hs.1 nofun

theorem cut (h : Triple P p Q C) {s : σ} (hs : P s) (hstart : C s) (hend : ∀ r t, Q r t → C t)
    (steps : Option Nat) : C (p.cut s steps) := by
  obtain ⟨hfinal, htrail⟩ := h s hs
  cases steps with
  | none => exact hend _ _ hfinal
  | some steps =>
    rw [Prog.cut]
    by_cases hlength : steps < (s :: (p s).trail).length
    · rw [List.getD_eq_getElem _ _ hlength]
      rcases List.mem_cons.mp (List.getElem_mem hlength) with hfirst | hlater
      · rw [hfirst]
        exact hstart
      · exact htrail _ hlater
    · rw [List.getD_eq_default _ _ (by omega)]
      exact hend _ _ hfinal

end Triple

end Crash
