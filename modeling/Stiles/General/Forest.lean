import Mathlib.Data.List.Nodup

/-
  Trees of labelled entries, and walks that do not enter what is refused.

  A `Forest` is a list of entries, each with a label, a value and the entries below it. An address
  is the list of the labels on the way to an entry. `visits` goes over the entries in order; an entry
  that is refused is left out with everything below it.

  * `mem_visits`: a walk gives the entries with nothing refused on the way to them.
  * `nodup_visits`: it gives each once.
  * `open_append`: where nothing on the way down is refused, a walk from there enters what the walk
    from above enters.
-/

/-- Entries side by side, each with the entries below it. -/
inductive Forest (κ ν : Type*) where
  | nil
  | cons (label : κ) (value : ν) (below rest : Forest κ ν)

namespace Forest

variable {κ ν : Type*} [DecidableEq κ]

/-- The entry with a label, and what is below it. -/
def find : Forest κ ν → κ → Option (ν × Forest κ ν)
  | .nil, _ => none
  | .cons label value below rest, k => if label = k then some (value, below) else rest.find k

/-- The value at an address. -/
def valueAt : Forest κ ν → List κ → Option ν
  | _, [] => none
  | f, [k] => (f.find k).map Prod.fst
  | f, k :: next :: ks => (f.find k).bind fun entry => entry.2.valueAt (next :: ks)

/-- The entries below an address. -/
def inside : Forest κ ν → List κ → Option (Forest κ ν)
  | f, [] => some f
  | f, k :: ks => (f.find k).bind fun entry => entry.2.inside ks

/-- No two entries side by side have one label. -/
def Distinct : Forest κ ν → Prop
  | .nil => True
  | .cons label _ below rest => rest.find label = none ∧ below.Distinct ∧ rest.Distinct

/-- The entries at and below `address` that a walk gives. -/
def visits (refused : List κ → ν → Bool) : List κ → Forest κ ν → List (List κ × ν)
  | _, .nil => []
  | address, .cons label value below rest =>
    (if refused (address ++ [label]) value then []
      else (address ++ [label], value) :: visits refused (address ++ [label]) below) ++
    visits refused address rest

/-- Nothing on the way from `address` down is refused. -/
def Open (refused : List κ → ν → Bool) (address : List κ) (f : Forest κ ν) (way : List κ) : Prop :=
  ∀ front value, front <+: way → f.valueAt front = some value →
    refused (address ++ front) value = false

/-! ## Addresses -/

theorem valueAt_cons_self (label : κ) (value : ν) (f rest : Forest κ ν) (ks : List κ) :
    (cons label value f rest).valueAt (label :: ks)
      = if ks = [] then some value else f.valueAt ks := by
  cases ks with
  | nil => simp [valueAt, find]
  | cons next ks => simp [valueAt, find]

theorem valueAt_cons_other {label k : κ} (h : k ≠ label) (value : ν) (f rest : Forest κ ν)
    (ks : List κ) :
    (cons label value f rest).valueAt (k :: ks) = rest.valueAt (k :: ks) := by
  cases ks with
  | nil => simp [valueAt, find, Ne.symm h]
  | cons next ks => simp [valueAt, find, Ne.symm h]

theorem valueAt_nil (ks : List κ) : (nil : Forest κ ν).valueAt ks = none := by
  cases ks with
  | nil => rfl
  | cons k ks => cases ks <;> rfl

theorem ne_nil_of_valueAt {f : Forest κ ν} {names : List κ} {value : ν}
    (h : f.valueAt names = some value) : names ≠ [] := by
  intro hnil
  rw [hnil] at h
  cases h

theorem find_of_valueAt {f : Forest κ ν} {k : κ} {ks : List κ} {value : ν}
    (h : f.valueAt (k :: ks) = some value) : f.find k ≠ none := by
  intro hnone
  cases ks with
  | nil =>
    rw [valueAt, hnone] at h
    cases h
  | cons next ks =>
    rw [valueAt, hnone] at h
    cases h

theorem valueAt_append {f inner : Forest κ ν} {front : List κ} (h : f.inside front = some inner)
    {rel : List κ} (hrel : rel ≠ []) : f.valueAt (front ++ rel) = inner.valueAt rel := by
  induction front generalizing f with
  | nil =>
    obtain rfl := Option.some.inj h
    rfl
  | cons k ks ih =>
    unfold inside at h
    obtain ⟨entry, hfind, hbelow⟩ := Option.bind_eq_some_iff.mp h
    obtain ⟨next, more, hmore⟩ :=
      List.exists_cons_of_ne_nil (List.append_ne_nil_of_right_ne_nil ks hrel)
    rw [List.cons_append, ← ih hbelow, hmore, valueAt, hfind]
    rfl

theorem inside_of_valueAt {f : Forest κ ν} {names : List κ} {value : ν}
    (h : f.valueAt names = some value) : ∃ inner, f.inside names = some inner := by
  induction names generalizing f with
  | nil => cases h
  | cons k ks ih =>
    obtain ⟨entry, hfind⟩ := Option.ne_none_iff_exists'.mp (find_of_valueAt h)
    cases ks with
    | nil =>
      refine ⟨entry.2, ?_⟩
      rw [inside, hfind]
      rfl
    | cons next ks =>
      rw [valueAt, hfind] at h
      obtain ⟨inner, hinner⟩ := ih h
      refine ⟨inner, ?_⟩
      rw [inside, hfind]
      exact hinner

theorem inside_append (f : Forest κ ν) (front rel : List κ) :
    f.inside (front ++ rel) = (f.inside front).bind fun inner => inner.inside rel := by
  induction front generalizing f with
  | nil => rfl
  | cons k ks ih =>
    rw [List.cons_append, inside, inside, Option.bind_assoc]
    congr 1
    funext entry
    exact ih entry.2

theorem Distinct.find {f : Forest κ ν} (h : f.Distinct) {k : κ} {entry : ν × Forest κ ν}
    (hfind : f.find k = some entry) : entry.2.Distinct := by
  induction f with
  | nil => cases hfind
  | cons label value f rest _ ih =>
    obtain ⟨_, hbelow, hrest⟩ := h
    unfold Forest.find at hfind
    split at hfind
    · obtain rfl := Option.some.inj hfind
      exact hbelow
    · exact ih hrest hfind

theorem Distinct.inside {f inner : Forest κ ν} (h : f.Distinct) {front : List κ}
    (hbelow : f.inside front = some inner) : inner.Distinct := by
  induction front generalizing f with
  | nil =>
    obtain rfl := Option.some.inj hbelow
    exact h
  | cons k ks ih =>
    obtain ⟨entry, hfind, hrest⟩ := Option.bind_eq_some_iff.mp hbelow
    exact ih (h.find hfind) hrest

/-! ## Walks -/

variable {refused : List κ → ν → Bool}

/-- The way through the first entry. -/
theorem open_cons_self {address : List κ} {label : κ} {value : ν} {f rest : Forest κ ν}
    {way : List κ} : Open refused address (cons label value f rest) (label :: way) ↔
      refused (address ++ [label]) value = false ∧ Open refused (address ++ [label]) f way := by
  constructor
  · intro h
    refine ⟨?_, fun front other hfront hvalue => ?_⟩
    · refine h [label] value (List.prefix_append [label] way) ?_
      rw [valueAt_cons_self, if_pos rfl]
    · have hne : front ≠ [] := ne_nil_of_valueAt hvalue
      rw [List.append_assoc]
      refine h (label :: front) other ((List.prefix_cons_inj label).mpr hfront) ?_
      rw [valueAt_cons_self, if_neg hne, hvalue]
  · intro h
    obtain ⟨hfirst, hbelow⟩ := h
    intro front other hfront hvalue
    cases front with
    | nil => cases hvalue
    | cons k front =>
      obtain ⟨rfl, hrest⟩ := List.cons_prefix_cons.mp hfront
      rw [valueAt_cons_self] at hvalue
      split at hvalue
      · rename_i hnil
        rw [hnil, ← Option.some.inj hvalue]
        exact hfirst
      · have hlater := hbelow front other hrest hvalue
        rwa [List.append_assoc] at hlater

theorem open_cons_other {address : List κ} {label k : κ} (hk : k ≠ label) {value : ν}
    {f rest : Forest κ ν} {way : List κ} :
    Open refused address (cons label value f rest) (k :: way) ↔
      Open refused address rest (k :: way) := by
  refine forall_congr' fun front => forall_congr' fun other => ?_
  cases front with
  | nil => simp [valueAt]
  | cons first front =>
    refine imp_congr_right fun hfront => ?_
    obtain ⟨rfl, _⟩ := List.cons_prefix_cons.mp hfront
    rw [valueAt_cons_other hk]

/-- A walk gives the entries with nothing refused on the way to them. -/
theorem mem_visits {f : Forest κ ν} (hdistinct : f.Distinct) {address names : List κ} {value : ν} :
    (names, value) ∈ f.visits refused address ↔ ∃ rel, names = address ++ rel ∧
      f.valueAt rel = some value ∧ Open refused address f rel := by
  induction f generalizing address with
  | nil =>
    simp [visits, valueAt_nil]
  | cons label first f rest ihf ihrest =>
    obtain ⟨hfresh, hbelow, hrest⟩ := hdistinct
    rw [visits, List.mem_append, ihrest hrest]
    have hhead : (names, value) ∈ (if refused (address ++ [label]) first = true then []
        else (address ++ [label], first) :: visits refused (address ++ [label]) f) ↔
        refused (address ++ [label]) first = false ∧
          (names = address ++ [label] ∧ value = first ∨ ∃ rel, names = address ++ [label] ++ rel ∧
            f.valueAt rel = some value ∧ Open refused (address ++ [label]) f rel) := by
      cases refused (address ++ [label]) first with
      | true => simp
      | false => simp [ihf hbelow]
    rw [hhead]
    constructor
    · intro h
      rcases h with ⟨hopen, ⟨rfl, rfl⟩ | ⟨rel, rfl, hvalue, hway⟩⟩ | ⟨rel, rfl, hvalue, hway⟩
      · refine ⟨[label], rfl, ?_, open_cons_self.mpr ⟨hopen, fun front other hfront hnone => ?_⟩⟩
        · rw [valueAt_cons_self, if_pos rfl]
        · rw [List.prefix_nil.mp hfront] at hnone
          cases hnone
      · have hne : rel ≠ [] := ne_nil_of_valueAt hvalue
        refine ⟨label :: rel, List.append_assoc .., ?_, open_cons_self.mpr ⟨hopen, hway⟩⟩
        rw [valueAt_cons_self, if_neg hne, hvalue]
      · cases rel with
        | nil => cases hvalue
        | cons k rel =>
          have hk : k ≠ label := fun heq => find_of_valueAt hvalue (heq ▸ hfresh)
          exact ⟨k :: rel, rfl, (valueAt_cons_other hk ..).trans hvalue,
            (open_cons_other hk).mpr hway⟩
    · intro h
      obtain ⟨rel, rfl, hvalue, hway⟩ := h
      cases rel with
      | nil => cases hvalue
      | cons k rel =>
        by_cases hk : k = label
        · obtain rfl := hk
          obtain ⟨hopen, hway⟩ := open_cons_self.mp hway
          refine Or.inl ⟨hopen, ?_⟩
          rw [valueAt_cons_self] at hvalue
          split at hvalue
          · rename_i hnil
            exact Or.inl ⟨by rw [hnil], (Option.some.inj hvalue).symm⟩
          · exact Or.inr ⟨rel, (List.append_assoc address [k] rel).symm, hvalue, hway⟩
        · rw [valueAt_cons_other hk] at hvalue
          exact Or.inr ⟨k :: rel, rfl, hvalue, (open_cons_other hk).mp hway⟩

/-- A walk that refuses nothing gives every entry. -/
theorem mem_visits_all {f : Forest κ ν} (hdistinct : f.Distinct) {names : List κ} {value : ν} :
    (names, value) ∈ f.visits (fun _ _ => false) [] ↔ f.valueAt names = some value := by
  rw [mem_visits hdistinct]
  constructor
  · intro h
    obtain ⟨rel, rfl, hvalue, _⟩ := h
    exact hvalue
  · exact fun h => ⟨names, rfl, h, fun _ _ _ _ => rfl⟩

/-- A walk gives each entry once. -/
theorem nodup_visits {f : Forest κ ν} (hdistinct : f.Distinct) (address : List κ) :
    ((f.visits refused address).map Prod.fst).Nodup := by
  induction f generalizing address with
  | nil => exact List.nodup_nil
  | cons label first f rest ihf ihrest =>
    obtain ⟨hfresh, hbelow, hrest⟩ := hdistinct
    have hwithin : ∀ names ∈ (f.visits refused (address ++ [label])).map Prod.fst,
        ∃ rel, names = address ++ label :: rel ∧ rel ≠ [] := by
      intro names hnames
      obtain ⟨⟨_, value⟩, hmem, rfl⟩ := List.mem_map.mp hnames
      obtain ⟨rel, rfl, hvalue, _⟩ := (mem_visits hbelow).mp hmem
      refine ⟨rel, List.append_assoc .., fun hnil => ?_⟩
      rw [hnil] at hvalue
      cases hvalue
    have hbeside : ∀ names ∈ (rest.visits refused address).map Prod.fst,
        ∀ rel, names ≠ address ++ label :: rel := by
      intro names hnames rel heq
      obtain ⟨⟨_, value⟩, hmem, rfl⟩ := List.mem_map.mp hnames
      obtain ⟨other, hother, hvalue, _⟩ := (mem_visits hrest).mp hmem
      have hsame : other = label :: rel := List.append_cancel_left (hother.symm.trans heq)
      rw [hsame] at hvalue
      exact find_of_valueAt hvalue hfresh
    rw [visits, List.map_append, List.nodup_append]
    refine ⟨?_, ihrest hrest address, ?_⟩
    · split
      · exact List.nodup_nil
      · rw [List.map_cons, List.nodup_cons]
        refine ⟨fun hmem => ?_, ihf hbelow _⟩
        obtain ⟨rel, heq, hne⟩ := hwithin _ hmem
        exact hne (List.cons.inj (List.append_cancel_left heq)).2.symm
    · intro names hnames other hother heq
      split at hnames
      · exact absurd hnames List.not_mem_nil
      · rw [List.map_cons, List.mem_cons] at hnames
        rcases hnames with rfl | hmem
        · exact hbeside other hother [] heq.symm
        · obtain ⟨rel, hrel, _⟩ := hwithin names hmem
          exact hbeside other hother rel (heq ▸ hrel)

/-- Where nothing on the way down is refused, what is open from above is open from below. -/
theorem open_append {f inner : Forest κ ν} {address way : List κ}
    (hinside : f.inside way = some inner) (hopen : Open refused address f way) (rel : List κ) :
    Open refused address f (way ++ rel) ↔ Open refused (address ++ way) inner rel := by
  constructor
  · intro h front other hfront hvalue
    have hne : front ≠ [] := ne_nil_of_valueAt hvalue
    rw [List.append_assoc]
    refine h (way ++ front) other ((List.prefix_append_right_inj way).mpr hfront) ?_
    rw [valueAt_append hinside hne, hvalue]
  · intro h front other hfront hvalue
    rcases List.prefix_or_prefix_of_prefix hfront (List.prefix_append way rel) with hshort | hlong
    · exact hopen front other hshort hvalue
    · obtain ⟨tail, rfl⟩ := hlong
      by_cases htail : tail = []
      · rw [htail, List.append_nil] at hvalue ⊢
        exact hopen way other List.prefix_rfl hvalue
      · rw [valueAt_append hinside htail] at hvalue
        rw [← List.append_assoc]
        exact h tail other ((List.prefix_append_right_inj way).mp hfront) hvalue

end Forest
