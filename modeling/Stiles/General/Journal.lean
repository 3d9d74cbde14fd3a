import Mathlib.Data.List.Infix

/-
  Programs that keep a journal of what they ask of the world.

  A program takes the journal so far to its result and to the journal at its end. An answer may
  depend on the whole journal before it, so the world may change with every question. An error ends
  a program.

  * `Grows`: nothing that was written is taken back.
  * `Triple`: what holds of the journal before and after, with one rule for each way to build a
    program.
  * `each_cases`: a loop goes over all of its items, or over those before the first that fails.
  * `each_ok_iff`: a loop that makes something of each part another loop finds makes it of the whole.
-/

namespace Journal

variable {ε x α β γ : Type*}

/-- A program that writes `ε` into its journal and fails with `x`. -/
def Prog (ε x α : Type*) := List ε → Except x α × List ε

namespace Prog

/-- Some entries, and the answer. -/
def tell (told : List ε → List ε × Except x α) : Prog ε x α := fun j =>
  ((told j).2, j ++ (told j).1)

/-- One question. -/
def ask (e : ε) (answer : List ε → Except x α) : Prog ε x α := tell fun j => ([e], answer j)

/-- A look at the world that leaves no entry. -/
def look (answer : List ε → Except x α) : Prog ε x α := tell fun j => ([], answer j)

/-- Something that is known already. -/
def lift (result : Except x α) : Prog ε x α := look fun _ => result

def andThen (p : Prog ε x α) (f : α → Prog ε x β) : Prog ε x β := fun j =>
  match (p j).1 with
  | .ok a => f a (p j).2
  | .error e => (.error e, (p j).2)

def mapError (f : x → x) (p : Prog ε x α) : Prog ε x α := fun j => ((p j).1.mapError f, (p j).2)

/-- What `f` gives for every item, in order. -/
def each (f : β → Prog ε x (List γ)) : List β → Prog ε x (List γ)
  | [] => lift (.ok [])
  | b :: bs =>
    (f b).andThen fun first => (each f bs).andThen fun rest => lift (.ok (first ++ rest))

theorem andThen_ok {p : Prog ε x α} {f : α → Prog ε x β} {j : List ε} {a : α}
    (h : (p j).1 = .ok a) : p.andThen f j = f a (p j).2 := by
  rw [andThen, h]

theorem andThen_error {p : Prog ε x α} {f : α → Prog ε x β} {j : List ε} {e : x}
    (h : (p j).1 = .error e) : p.andThen f j = (.error e, (p j).2) := by
  rw [andThen, h]

theorem lift_eq_ok {a b : α} {j j' : List ε} :
    (lift (.ok a) : Prog ε x α) j = (.ok b, j') ↔ a = b ∧ j = j' := by
  show (Except.ok a, j ++ []) = (Except.ok b, j') ↔ _
  rw [List.append_nil, Prod.mk.injEq, Except.ok.injEq]

theorem andThen_eq_ok {p : Prog ε x α} {f : α → Prog ε x β} {j j' : List ε} {b : β} :
    p.andThen f j = (.ok b, j') ↔ ∃ a mid, p j = (.ok a, mid) ∧ f a mid = (.ok b, j') := by
  cases h : (p j).1 with
  | error e =>
    rw [andThen_error h]
    refine iff_of_false nofun fun hsome => ?_
    obtain ⟨a, mid, hp, -⟩ := hsome
    rw [hp] at h
    cases h
  | ok a =>
    rw [andThen_ok h]
    constructor
    · exact fun hf => ⟨a, (p j).2, Prod.ext h rfl, hf⟩
    · rintro ⟨a', mid, hp, hf⟩
      rw [hp] at h ⊢
      cases h
      exact hf

end Prog

/-! ## Growth -/

def Grows (p : Prog ε x α) : Prop := ∀ j, j <+: (p j).2

namespace Grows

theorem tell (told : List ε → List ε × Except x α) : Grows (Prog.tell told) :=
  fun _ => List.prefix_append _ _

theorem andThen {p : Prog ε x α} {f : α → Prog ε x β} (hp : Grows p) (hf : ∀ a, Grows (f a)) :
    Grows (p.andThen f) := by
  intro j
  cases h : (p j).1 with
  | ok a =>
    rw [Prog.andThen_ok h]
    exact (hp j).trans (hf a _)
  | error e =>
    rw [Prog.andThen_error h]
    exact hp j

theorem mapError {p : Prog ε x α} {f : x → x} (hp : Grows p) : Grows (p.mapError f) := hp

theorem each {f : β → Prog ε x (List γ)} (hf : ∀ b, Grows (f b)) (bs : List β) :
    Grows (Prog.each f bs) := by
  induction bs with
  | nil => exact tell _
  | cons b bs ih => exact (hf b).andThen fun first => ih.andThen fun rest => tell _

end Grows

/-! ## Before and after -/

def Triple (P : List ε → Prop) (p : Prog ε x α) (Q : Except x α → List ε → Prop) : Prop :=
  ∀ j, P j → Q (p j).1 (p j).2

namespace Triple

variable {P : List ε → Prop} {p : Prog ε x α}

theorem tell {told : List ε → List ε × Except x α} {Q : Except x α → List ε → Prop}
    (h : ∀ j, P j → Q (told j).2 (j ++ (told j).1)) : Triple P (Prog.tell told) Q := h

theorem andThen {f : α → Prog ε x β} {M : Except x α → List ε → Prop}
    {Q : Except x β → List ε → Prop} (hp : Triple P p M) (hf : ∀ a, Triple (M (.ok a)) (f a) Q)
    (herror : ∀ e j, M (.error e) j → Q (.error e) j) : Triple P (p.andThen f) Q := by
  intro j hj
  have hmid := hp j hj
  cases h : (p j).1 with
  | ok a =>
    rw [h] at hmid
    rw [Prog.andThen_ok h]
    exact hf a _ hmid
  | error e =>
    rw [h] at hmid
    rw [Prog.andThen_error h]
    exact herror e _ hmid

theorem mapError {f : x → x} {Q : Except x α → List ε → Prop}
    (h : Triple P p fun r j => Q (r.mapError f) j) : Triple P (p.mapError f) Q := h

/-- What every item keeps, a loop keeps. -/
theorem each {f : β → Prog ε x (List γ)} {bs : List β}
    (h : ∀ b ∈ bs, Triple P (f b) fun _ => P) : Triple P (Prog.each f bs) fun _ => P := by
  induction bs with
  | nil => exact tell fun j hj => (List.append_nil j).symm ▸ hj
  | cons b bs ih =>
    refine andThen (h b List.mem_cons_self) (fun first => ?_) fun e j hj => hj
    refine andThen (ih fun b hb => h b (List.mem_cons_of_mem _ hb)) (fun rest => ?_)
      fun e j hj => hj
    exact tell fun j hj => (List.append_nil j).symm ▸ hj

end Triple

/-! ## Loops -/

/-- `f` succeeds for each item, from one journal to another. -/
inductive Runs (f : β → Prog ε x (List γ)) : List β → List (List γ) → List ε → List ε → Prop where
  | nil (j : List ε) : Runs f [] [] j j
  | cons {b : β} {bs : List β} {part : List γ} {parts : List (List γ)} {j j' j'' : List ε}
      (first : f b j = (.ok part, j')) (rest : Runs f bs parts j' j'') :
      Runs f (b :: bs) (part :: parts) j j''

theorem Runs.grows {f : β → Prog ε x (List γ)} (hf : ∀ b, Grows (f b)) {bs : List β}
    {parts : List (List γ)} {j j' : List ε} (h : Runs f bs parts j j') : j <+: j' := by
  induction h with
  | nil j => exact List.prefix_rfl
  | @cons b bs part parts j j₁ j' first rest ih =>
    have hgrows := hf b j
    rw [first] at hgrows
    exact hgrows.trans ih

/-- A loop goes over all of its items, or over those before the first that fails. -/
theorem each_cases (f : β → Prog ε x (List γ)) (bs : List β) (j : List ε) :
    (∃ parts, Runs f bs parts j (Prog.each f bs j).2 ∧
      (Prog.each f bs j).1 = .ok parts.flatten) ∨
    ∃ before b after parts j' e, bs = before ++ b :: after ∧ Runs f before parts j j' ∧
      f b j' = (.error e, (Prog.each f bs j).2) ∧ (Prog.each f bs j).1 = .error e := by
  induction bs generalizing j with
  | nil =>
    refine Or.inl ⟨[], ?_, rfl⟩
    show Runs f [] [] j (j ++ [])
    rw [List.append_nil]
    exact .nil j
  | cons b bs ih =>
    rw [Prog.each]
    cases hfirst : (f b j).1 with
    | error e =>
      rw [Prog.andThen_error hfirst]
      refine Or.inr ⟨[], b, bs, [], j, e, rfl, .nil j, ?_, rfl⟩
      rw [← hfirst]
    | ok part =>
      have hstep : f b j = (.ok part, (f b j).2) := by rw [← hfirst]
      rw [Prog.andThen_ok hfirst]
      rcases ih (f b j).2 with ⟨parts, hruns, hrest⟩ | ⟨before, b', after, parts, j', e, hsplit,
        hruns, hfails, hrest⟩
      · rw [Prog.andThen_ok hrest]
        refine Or.inl ⟨part :: parts, ?_, rfl⟩
        show Runs f (b :: bs) (part :: parts) j ((Prog.each f bs (f b j).2).2 ++ [])
        rw [List.append_nil]
        exact .cons hstep hruns
      · rw [Prog.andThen_error hrest]
        exact Or.inr ⟨b :: before, b', after, part :: parts, j', e, by rw [hsplit]; rfl,
          .cons hstep hruns, hfails, rfl⟩

theorem each_ok {f : β → Prog ε x (List γ)} {bs : List β} {j j' : List ε} {all : List γ}
    (h : Prog.each f bs j = (.ok all, j')) :
    ∃ parts, Runs f bs parts j j' ∧ all = parts.flatten := by
  have hcases := each_cases f bs j
  rw [h] at hcases
  rcases hcases with ⟨parts, hruns, hall⟩ | ⟨before, b, after, parts, j₁, e, -, -, -, herror⟩
  · exact ⟨parts, hruns, Except.ok.inj hall⟩
  · cases herror

/-- A loop that makes something of what another one finds, if what it makes of a list is put
    together from its parts. -/
theorem each_ok_iff {δ : Type*} {f : β → Prog ε x (List γ)} {g : β → Prog ε x (List δ)}
    (Makes : List δ → List γ → Prop) (hnil : ∀ all, Makes [] all ↔ all = [])
    (happend : ∀ first rest all, Makes (first ++ rest) all ↔
      ∃ part parts, Makes first part ∧ Makes rest parts ∧ all = part ++ parts)
    (hstep : ∀ b j part j', f b j = (.ok part, j') ↔
      ∃ found, g b j = (.ok found, j') ∧ Makes found part)
    (bs : List β) (j : List ε) (all : List γ) (j' : List ε) :
    Prog.each f bs j = (.ok all, j') ↔
      ∃ found, Prog.each g bs j = (.ok found, j') ∧ Makes found all := by
  induction bs generalizing j all j' with
  | nil =>
    simp only [Prog.each, Prog.lift_eq_ok]
    constructor
    · rintro ⟨rfl, rfl⟩
      exact ⟨[], ⟨rfl, rfl⟩, (hnil []).mpr rfl⟩
    · rintro ⟨found, ⟨rfl, rfl⟩, hall⟩
      exact ⟨((hnil all).mp hall).symm, rfl⟩
  | cons b bs ih =>
    simp only [Prog.each, Prog.andThen_eq_ok, Prog.lift_eq_ok]
    constructor
    · rintro ⟨part, mid, hfirst, parts, j'', hrest, rfl, rfl⟩
      obtain ⟨found, hfound, hpart⟩ := (hstep b j part mid).mp hfirst
      obtain ⟨others, hothers, hparts⟩ := (ih mid parts j'').mp hrest
      exact ⟨found ++ others, ⟨found, mid, hfound, others, j'', hothers, rfl, rfl⟩,
        (happend found others _).mpr ⟨part, parts, hpart, hparts, rfl⟩⟩
    · rintro ⟨_, ⟨found, mid, hfound, others, j'', hothers, rfl, rfl⟩, hall⟩
      obtain ⟨part, parts, hpart, hparts, rfl⟩ := (happend found others all).mp hall
      exact ⟨part, mid, (hstep b j part mid).mpr ⟨found, hfound, hpart⟩, parts, j'',
        (ih mid parts j'').mpr ⟨others, hothers, hparts⟩, rfl, rfl⟩

end Journal
