import Mathlib.Data.List.Infix

/-
  Trails: steps into a place below, and steps back.

  `location` is where a trail leads from the root, and `longest` finds the longest front of a list
  that passes a test.

  * `longest_eq_some`: the front that is found passes, and no longer one does.
  * `last_at`: a trail was at each place above its end, and did not leave it again.
  * `nearest_of_lastMarked`: where the longest front that stands at a marked place stands above the
    end, that is the nearest marked place.
  * `follow_append`: steps that never leave a place lead to the same place below it.
-/

namespace Trail

variable {α ν : Type*}

/-! ## The longest front -/

def longest (test : List α → Bool) (s : List α) : Option (List α) :=
  s.inits.reverse.find? test

theorem longest_nil (test : List α → Bool) :
    longest test [] = if test [] then some [] else none := by
  show [[]].find? test = _
  rw [List.find?_singleton]

theorem longest_concat (test : List α → Bool) (s : List α) (x : α) :
    longest test (s ++ [x]) = if test (s ++ [x]) then some (s ++ [x]) else longest test s := by
  unfold longest
  rw [List.inits_append]
  simp [List.find?_cons]
  split <;> simp_all

theorem longest_eq_some {test : List α → Bool} {s front : List α} :
    longest test s = some front ↔ front <+: s ∧ test front = true ∧
      ∀ other, other <+: s → test other = true → other <+: front := by
  induction s using List.reverseRecOn with
  | nil =>
    rw [longest_nil]
    constructor
    · intro h
      split at h
      · rename_i htest
        obtain rfl := Option.some.inj h
        exact ⟨List.prefix_rfl, htest, fun other hother _ => hother⟩
      · cases h
    · intro h
      obtain ⟨hfront, htest, _⟩ := h
      obtain rfl := List.prefix_nil.mp hfront
      rw [if_pos htest]
  | append_singleton s x ih =>
    rw [longest_concat]
    split
    · rename_i htest
      constructor
      · intro h
        obtain rfl := Option.some.inj h
        exact ⟨List.prefix_rfl, htest, fun other hother _ => hother⟩
      · intro h
        obtain ⟨hfront, _, hlongest⟩ := h
        have hsame := hlongest _ List.prefix_rfl htest
        rw [hsame.eq_of_length (Nat.le_antisymm hsame.length_le hfront.length_le)]
    · rename_i htest
      rw [ih]
      constructor
      · intro h
        obtain ⟨hfront, hpass, hlongest⟩ := h
        refine ⟨hfront.trans (List.prefix_append _ _), hpass, fun other hother hother' => ?_⟩
        rcases List.prefix_concat_iff.mp hother with rfl | hother
        · exact absurd hother' htest
        · exact hlongest other hother hother'
      · intro h
        obtain ⟨hfront, hpass, hlongest⟩ := h
        rcases List.prefix_concat_iff.mp hfront with rfl | hfront
        · exact absurd hpass htest
        · exact ⟨hfront, hpass, fun other hother hother' =>
            hlongest other (hother.trans (List.prefix_append _ _)) hother'⟩

theorem longest_eq_none {test : List α → Bool} {s : List α} :
    longest test s = none ↔ ∀ front, front <+: s → test front = false := by
  unfold longest
  rw [List.find?_eq_none]
  constructor
  · intro h front hfront
    exact Bool.eq_false_iff.mpr
      (h front (List.mem_reverse.mpr ((List.mem_inits front s).mpr hfront)))
  · intro h front hfront
    have := h front ((List.mem_inits front s).mp (List.mem_reverse.mp hfront))
    simp [this]

theorem longest_congr {test other : List α → Bool} {s : List α}
    (h : ∀ front, front <+: s → test front = other front) : longest test s = longest other s := by
  induction s using List.reverseRecOn with
  | nil => rw [longest_nil, longest_nil, h [] List.prefix_rfl]
  | append_singleton s x ih =>
    rw [longest_concat, longest_concat, h _ List.prefix_rfl]
    rw [ih fun front hfront => h front (hfront.trans (List.prefix_append _ _))]

/-! ## Where a trail leads -/

/-- Into a place below, or back to the place above. The root has none above it. -/
def step (place : List ν) : Option ν → List ν
  | some name => place ++ [name]
  | none => place.dropLast

def location (trail : List (Option ν)) : List ν := trail.foldl step []

theorem location_concat (trail : List (Option ν)) (x : Option ν) :
    location (trail ++ [x]) = step (location trail) x := by
  unfold location
  rw [List.foldl_append]
  rfl

/-- A trail with no step back leads where it says. -/
theorem location_map_some (names : List ν) : location (names.map some) = names := by
  induction names using List.reverseRecOn with
  | nil => rfl
  | append_singleton names name ih =>
    rw [List.map_append, List.map_singleton, location_concat, ih]
    rfl

/-- The trail was at each place above its end, and did not leave it again. -/
theorem last_at {trail : List (Option ν)} {place : List ν} (h : place <+: location trail) :
    ∃ front, front <+: trail ∧ location front = place ∧
      ∀ later, front <+: later → later <+: trail → place <+: location later := by
  induction trail using List.reverseRecOn with
  | nil =>
    refine ⟨[], List.prefix_rfl, (List.prefix_nil.mp h).symm, fun later _ hlater => ?_⟩
    rw [List.prefix_nil.mp hlater]
    exact h
  | append_singleton trail x ih =>
    by_cases hend : place = location (trail ++ [x])
    · refine ⟨trail ++ [x], List.prefix_rfl, hend.symm, fun later hfront hlater => ?_⟩
      rw [← hfront.eq_of_length (Nat.le_antisymm hfront.length_le hlater.length_le)]
      exact h
    · -- the last step went further down, or back to a place that is still below
      have hbefore : place <+: location trail := by
        rw [location_concat] at h hend
        cases x with
        | some name => exact (List.prefix_concat_iff.mp h).resolve_left hend
        | none => exact h.trans (List.dropLast_prefix _)
      obtain ⟨front, hfront, hplace, hstays⟩ := ih hbefore
      refine ⟨front, hfront.trans (List.prefix_append _ _), hplace, fun later hfrom hlater => ?_⟩
      rcases List.prefix_concat_iff.mp hlater with rfl | hlater
      · exact h
      · exact hstays later hfrom hlater

/-! ## Steps from a place -/

/-- Where steps lead from a place. -/
def follow (place : List ν) (steps : List (Option ν)) : List ν := steps.foldl step place

theorem follow_concat (place : List ν) (steps : List (Option ν)) (x : Option ν) :
    follow place (steps ++ [x]) = step (follow place steps) x := by
  unfold follow
  rw [List.foldl_append]
  rfl

/-- Steps that never leave `base` lead to the same place below it, wherever it stands. -/
theorem follow_append {base below : List ν} {steps : List (Option ν)}
    (h : ∀ front, front <+: steps → base <+: follow (base ++ below) front) :
    follow (base ++ below) steps = base ++ follow below steps := by
  induction steps using List.reverseRecOn with
  | nil => rfl
  | append_singleton steps x ih =>
    have hbefore := ih fun front hfront => h front (hfront.trans (List.prefix_append _ _))
    have hwhole := h _ List.prefix_rfl
    rw [follow_concat, hbefore] at hwhole
    rw [follow_concat, follow_concat, hbefore]
    cases x with
    | some name => exact List.append_assoc ..
    | none =>
      by_cases htop : follow below steps = []
      · -- a step back from `base` itself stays there only at the root
        rw [htop, List.append_nil] at hwhole ⊢
        have hlength : base.length ≤ base.dropLast.length := hwhole.length_le
        rw [List.length_dropLast] at hlength
        have hroot : base = [] := List.length_eq_zero_iff.mp (by omega)
        rw [hroot]
        rfl
      · exact List.dropLast_append_of_ne_nil htop

/-! ## The nearest marked place -/

variable {marked : List ν → Bool} {trail : List (Option ν)}

/-- The nearest marked place at or above the end. -/
def nearest (marked : List ν → Bool) (trail : List (Option ν)) : Option (List ν) :=
  longest marked (location trail)

/-- The longest front that stands at a marked place. -/
def lastMarked (marked : List ν → Bool) (trail : List (Option ν)) : Option (List (Option ν)) :=
  longest (fun front => marked (location front)) trail

theorem nearest_eq_none (h : lastMarked marked trail = none) : nearest marked trail = none := by
  refine longest_eq_none.mpr fun place hplace => ?_
  obtain ⟨front, hfront, rfl, _⟩ := last_at hplace
  exact longest_eq_none.mp h front hfront

/-- Where the longest front that stands at a marked place stands above the end, that place is the
    nearest one. -/
theorem nearest_of_lastMarked {front : List (Option ν)}
    (h : lastMarked marked trail = some front) (habove : location front <+: location trail) :
    nearest marked trail = some (location front) := by
  obtain ⟨hfront, hmarked, hlongest⟩ := longest_eq_some.mp h
  refine longest_eq_some.mpr ⟨habove, hmarked, fun place hplace hplaceMarked => ?_⟩
  obtain ⟨at_, hat, rfl, hstays⟩ := last_at hplace
  exact hstays front (hlongest at_ hat hplaceMarked) hfront

/-- The longest front that stands at a marked place stands above the end if and only if each that
    stands elsewhere has a longer one that stands above the end. -/
theorem lastMarked_above {front : List (Option ν)} (h : lastMarked marked trail = some front) :
    location front <+: location trail ↔
      ∀ other, other <+: trail → marked (location other) = true →
        ¬ location other <+: location trail →
        ∃ later, other <+: later ∧ later <+: trail ∧ marked (location later) = true ∧
          location later <+: location trail := by
  obtain ⟨hfront, hmarked, hlongest⟩ := longest_eq_some.mp h
  constructor
  · intro habove other hother hother' _
    exact ⟨front, hlongest other hother hother', hfront, hmarked, habove⟩
  · intro hleft
    by_contra hnot
    obtain ⟨later, hlonger, hlater, hlaterMarked, habove⟩ := hleft front hfront hmarked hnot
    have hback := hlongest later hlater hlaterMarked
    rw [hlonger.eq_of_length (Nat.le_antisymm hlonger.length_le hback.length_le)] at hnot
    exact hnot habove

end Trail
