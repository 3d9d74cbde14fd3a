import Mathlib.Data.List.Nodup

/-
  Givers that each mark places with roles.

  `place role giver` lists the places that a giver may mark with a role, and `gives giver` the marks
  it makes, each a place with a role.

  * `nodup_gives`: where no place is listed twice for one role, no mark is made twice.
  * `place_elsewhere`: a place of one giver is no place of the others.
-/

namespace Roles

variable {α ι τ : Type*} {place : τ → α → List ι} {gives : α → List (ι × τ)}

theorem nodup_gives {givers : List α} (hplaces : ∀ role, (givers.flatMap (place role)).Nodup)
    (hwithin : ∀ v ∈ givers, ∀ mark ∈ gives v, mark.1 ∈ place mark.2 v)
    (hgives : ∀ v ∈ givers, (gives v).Nodup) : (givers.flatMap gives).Nodup := by
  rw [List.nodup_flatMap]
  refine ⟨hgives, ?_⟩
  rw [List.pairwise_iff_getElem]
  intro i j hi hj hij mark hfirst hsecond
  have hpairwise := (List.nodup_flatMap.mp (hplaces mark.2)).2
  rw [List.pairwise_iff_getElem] at hpairwise
  -- both givers would list the place of the mark for its role
  exact hpairwise i j hi hj hij (hwithin _ (List.getElem_mem hi) mark hfirst)
    (hwithin _ (List.getElem_mem hj) mark hsecond)

theorem place_elsewhere {role : τ} {before after : List α} {v : α}
    (hplaces : ((before ++ v :: after).flatMap (place role)).Nodup) {i : ι} (hi : i ∈ place role v) :
    ∀ other ∈ before ++ after, i ∉ place role other := by
  have hpairwise := (List.nodup_flatMap.mp hplaces).2
  rw [List.pairwise_append, List.pairwise_cons] at hpairwise
  obtain ⟨_, ⟨hafter, _⟩, hbefore⟩ := hpairwise
  intro other hother hplace
  rcases List.mem_append.mp hother with h | h
  · exact hbefore other h v List.mem_cons_self hplace hi
  · exact hafter other h hi hplace

/-- Where the other members give nothing, the list gives what the one member gives. -/
theorem flatMap_only {β : Type*} {f : α → List β} {before after : List α} (v : α)
    (h : ∀ other ∈ before ++ after, f other = []) :
    (before ++ v :: after).flatMap f = f v := by
  have hbefore : before.flatMap f = [] :=
    List.flatMap_eq_nil_iff.mpr fun other hother => h other (List.mem_append_left _ hother)
  have hafter : after.flatMap f = [] :=
    List.flatMap_eq_nil_iff.mpr fun other hother => h other (List.mem_append_right _ hother)
  rw [List.flatMap_append, List.flatMap_cons, hbefore, hafter, List.append_nil, List.nil_append]

end Roles
