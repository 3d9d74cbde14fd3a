import Stiles.General.Roles
import Stiles.Types.SyntaxWalk

/-
  Decorations of cardinality one (`decoration.rs`).

  A mark is the node of an entry with the type that was recorded on it. A provider goes over its
  targets and records at most the marks of each: `foldl_marks` says that what the map then holds is
  a sublist of the marks of the targets. `oneOfEach_of_nodup` says that where no mark repeats a node
  holds at most one decoration of each type.
-/

namespace Stiles

variable {D : DecorationTypes}

def Entry.mark (e : Entry D) : Nat × D.Ty := (e.nodeId, e.value.1)

namespace DecorationMap

/-- Every node with every type that is recorded on it, in insertion order. -/
def marks (map : DecorationMap D) : List (Nat × D.Ty) := map.entries.map Entry.mark

/-- Each node holds at most one decoration of each type. -/
def OneOfEach (map : DecorationMap D) : Prop :=
  ∀ (T : D.Ty) (nodeId : Nat), (map.getAll T nodeId).length ≤ 1

theorem marks_new : (DecorationMap.new : DecorationMap D).marks = [] := rfl

theorem marks_insert (map : DecorationMap D) (nodeId : Nat) (T : D.Ty) (value : D.Value T) :
    (map.insert nodeId T value).marks = map.marks ++ [(nodeId, T)] := by
  unfold marks insert
  rw [List.map_append]
  rfl

/-- An answer of the type checker, recorded on the node if there is one. -/
def insertAnswer (map : DecorationMap D) (nodeId : Nat) (T : D.Ty) (answer : Option (D.Value T)) :
    DecorationMap D :=
  match answer with
  | some value => map.insert nodeId T value
  | none => map

theorem marks_insertAnswer (map : DecorationMap D) (nodeId : Nat) (T : D.Ty)
    (answer : Option (D.Value T)) :
    ∃ recorded : List (Nat × D.Ty), recorded.Sublist [(nodeId, T)] ∧
      (map.insertAnswer nodeId T answer).marks = map.marks ++ recorded := by
  unfold insertAnswer
  split
  · exact ⟨_, List.Sublist.refl _, marks_insert map nodeId T _⟩
  · exact ⟨[], List.nil_sublist _, (List.append_nil _).symm⟩

theorem entries_insertAnswer (map : DecorationMap D) (nodeId : Nat) (T : D.Ty)
    (answer : Option (D.Value T)) :
    (map.insertAnswer nodeId T answer).entries =
      map.entries ++ (answer.map (Entry.new nodeId T)).toList := by
  cases answer with
  | none => exact (List.append_nil _).symm
  | some value => rfl

theorem wellSealed_insertAnswer {map : DecorationMap D} (h : map.WellSealed) (nodeId : Nat)
    (T : D.Ty) (answer : Option (D.Value T)) : (map.insertAnswer nodeId T answer).WellSealed := by
  unfold insertAnswer
  split
  · exact wellSealed_of_none rfl
  · exact h

end DecorationMap

/-- What a node holds of a type was marked there as often. -/
theorem Entries.length_getAll_le (entries : List (Entry D)) (T : D.Ty) (nodeId : Nat) :
    (Entries.getAll entries T nodeId).length ≤ (entries.map Entry.mark).count (nodeId, T) := by
  induction entries with
  | nil => exact Nat.le_refl _
  | cons entry rest ih =>
    rw [← List.singleton_append, Entries.getAll_append, List.length_append, List.map_append,
      List.count_append]
    have hone : (Entries.getAll [entry] T nodeId).length ≤
        ([entry].map Entry.mark).count (nodeId, T) := by
      unfold Entries.getAll Entries.held
      rw [List.map_singleton, List.filter_cons, List.filter_nil]
      by_cases hmark : entry.mark = (nodeId, T)
      · rw [hmark, List.count_singleton_self]
        split
        · exact List.length_filterMap_le _ _
        · exact Nat.zero_le _
      · have hread : entry.nodeId = nodeId → entry.read T = none := by
          intro hnode
          have hother : entry.value.1 ≠ T := fun hT => hmark (by rw [Entry.mark, hnode, hT])
          unfold Entry.read
          rw [dif_neg hother]
        split
        · rename_i hheld
          rw [List.filterMap_cons_none (hread (of_decide_eq_true hheld).1)]
          exact Nat.zero_le _
        · exact Nat.zero_le _
    omega

theorem DecorationMap.oneOfEach_of_nodup {map : DecorationMap D} (hsealed : map.WellSealed)
    (h : map.marks.Nodup) : map.OneOfEach := by
  intro T nodeId
  rw [DecorationMap.getAll_eq hsealed]
  exact (Entries.length_getAll_le map.entries T nodeId).trans (List.nodup_iff_count.mp h _)

/-- An entry that `insert` made is under the key of its type. -/
def Entry.Made (entry : Entry D) : Prop := entry.key = D.KEY entry.value.1

/-- What is read from an entry of a node is what was inserted there. -/
theorem Entry.eq_new {entry : Entry D} (hmade : entry.Made) {T : D.Ty} {value : D.Value T}
    (hread : entry.read T = some value) : entry = Entry.new entry.nodeId T value := by
  obtain ⟨nodeId, key, held, value'⟩ := entry
  unfold Entry.read at hread
  by_cases hT : held = T
  · subst hT
    rw [dif_pos rfl, Option.some.injEq] at hread
    obtain rfl : key = D.KEY held := hmade
    obtain rfl : value' = value := hread
    rfl
  · rw [dif_neg hT] at hread
    cases hread

theorem Entries.mem_getAll {entries : List (Entry D)} (hmade : ∀ entry ∈ entries, entry.Made)
    {T : D.Ty} {nodeId : Nat} {value : D.Value T} :
    value ∈ Entries.getAll entries T nodeId ↔ Entry.new nodeId T value ∈ entries := by
  unfold Entries.getAll Entries.held
  rw [List.mem_filterMap]
  constructor
  · intro h
    obtain ⟨entry, hentry, hread⟩ := h
    obtain ⟨hmem, hheld⟩ := List.mem_filter.mp hentry
    rw [← (of_decide_eq_true hheld).1, ← Entry.eq_new (hmade entry hmem) hread]
    exact hmem
  · intro h
    refine ⟨_, List.mem_filter.mpr ⟨h, decide_eq_true ⟨rfl, rfl⟩⟩, ?_⟩
    exact dif_pos rfl

/-- Where a node holds at most one decoration of each type and types have different keys, a read
    answers exactly what was inserted. -/
theorem DecorationMap.get_iff {map : DecorationMap D} (hsealed : map.WellSealed)
    (hkeys : Function.Injective D.KEY) (hmade : ∀ entry ∈ map.entries, entry.Made)
    (h : map.OneOfEach) {T : D.Ty} {nodeId : Nat} {value : D.Value T} :
    map.get T nodeId = some value ↔ Entry.new nodeId T value ∈ map.entries := by
  have hheld : ∀ entry ∈ Entries.held map.entries nodeId (D.KEY T), entry.value.1 = T := by
    intro entry hentry
    obtain ⟨hmem, hheld⟩ := List.mem_filter.mp hentry
    have hkey := (hmade entry hmem).symm.trans (of_decide_eq_true hheld).2
    exact hkeys hkey
  have hone := h T nodeId
  rw [DecorationMap.getAll_eq hsealed] at hone
  rw [DecorationMap.get_eq hsealed, Entries.first_eq_head hheld, ← Entries.mem_getAll hmade]
  generalize Entries.getAll map.entries T nodeId = values at hone
  match values, hone with
  | [], _ => simp
  | [only], _ => simp [eq_comm]

/-! ## A run over the targets -/

section Run

variable {σ Target : Type*} {marksOf : Target → List (Nat × D.Ty)}
  {step : σ × DecorationMap D → Target → σ × DecorationMap D}

/-- A step records some of the marks of its target, in their order. -/
def Records (marksOf : Target → List (Nat × D.Ty))
    (step : σ × DecorationMap D → Target → σ × DecorationMap D) : Prop :=
  ∀ state target, (∃ recorded, recorded.Sublist (marksOf target) ∧
    (step state target).2.marks = state.2.marks ++ recorded) ∧
    (state.2.WellSealed → (step state target).2.WellSealed)

/-- A run records some of the marks of its targets, in their order. -/
theorem foldl_marks (h : Records marksOf step) (state : σ × DecorationMap D)
    (targets : List Target) :
    ∃ recorded, recorded.Sublist (targets.flatMap marksOf) ∧
      (targets.foldl step state).2.marks = state.2.marks ++ recorded := by
  induction targets generalizing state with
  | nil => exact ⟨[], List.Sublist.slnil, (List.append_nil _).symm⟩
  | cons target rest ih =>
    obtain ⟨first, hfirst, hmarks⟩ := (h state target).1
    obtain ⟨later, hlater, hrun⟩ := ih (step state target)
    refine ⟨first ++ later, ?_, ?_⟩
    · rw [List.flatMap_cons]
      exact hfirst.append hlater
    · rw [List.foldl_cons, hrun, hmarks, List.append_assoc]

/-- Where each step appends entries that its target allows, so does a run over different targets:
    the entries of a run are those of its targets, in order. -/
theorem foldl_entries [DecidableEq Target] {gives : Target → List (Entry D) → Prop}
    (h : ∀ state target, ∃ own, gives target own ∧
      (step state target).2.entries = state.2.entries ++ own)
    {targets : List Target} (hnodup : targets.Nodup) (state : σ × DecorationMap D) :
    ∃ own : Target → List (Entry D), (∀ target ∈ targets, gives target (own target)) ∧
      (targets.foldl step state).2.entries = state.2.entries ++ targets.flatMap own := by
  induction targets generalizing state with
  | nil => exact ⟨fun _ => [], nofun, (List.append_nil _).symm⟩
  | cons target rest ih =>
    obtain ⟨hfresh, hrest⟩ := List.nodup_cons.mp hnodup
    obtain ⟨first, hfirst, hentries⟩ := h state target
    obtain ⟨later, hlater, hrun⟩ := ih hrest (step state target)
    refine ⟨Function.update later target first, ?_, ?_⟩
    · intro other hother
      by_cases hsame : other = target
      · rw [hsame, Function.update_self]
        exact hfirst
      · rw [Function.update_of_ne hsame]
        exact hlater other ((List.mem_cons.mp hother).resolve_left hsame)
    · have hothers : rest.flatMap (Function.update later target first) = rest.flatMap later := by
        refine List.flatMap_congr fun other hother => Function.update_of_ne ?_ _ _
        rintro rfl
        exact hfresh hother
      rw [List.foldl_cons, hrun, hentries, List.flatMap_cons, Function.update_self, hothers,
        List.append_assoc]

theorem foldl_wellSealed (h : Records marksOf step) (targets : List Target) :
    ∀ state : σ × DecorationMap D, state.2.WellSealed →
      (targets.foldl step state).2.WellSealed := by
  induction targets with
  | nil => exact fun _ hstate => hstate
  | cons target rest ih => exact fun state hstate => ih _ ((h state target).2 hstate)

end Run

end Stiles
