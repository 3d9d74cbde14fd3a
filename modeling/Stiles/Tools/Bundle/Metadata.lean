import Mathlib.Data.Finmap
import Mathlib.Data.Finset.Sort
import Mathlib.Data.String.Basic
import Stiles.General.Worklist
import Stiles.Types.Errors
import Stiles.Types.FilePath

/-
  The workspace that is bundled, as cargo describes it (`metadata.rs` of `bundle-tsrs`).

  A `BTreeMap` is a `Finmap`, and a `BTreeSet` a `Finset`: what is taken from them in order is sorted.

  * `closure_ok_iff`: the closure of the roots exists exactly if they are packages.
  * `closure_spec`: it is the packages that the roots reach, in order of their names.
-/

namespace Stiles

namespace Bundle

inductive Optionality where
  | Required
  | Optional
deriving DecidableEq, Repr

inductive DefaultFeatures where
  | On
  | Off
deriving DecidableEq, Repr

/-- A dependency, as a manifest declares it. -/
structure Dependency where
  name : String
  req : String
  kind : Option String
  optional : Optionality
  usesDefaultFeatures : DefaultFeatures
  features : List String
  target : Option String
  rename : Option String
deriving DecidableEq, Repr

structure Package where
  name : String
  manifestPath : FilePath
  dependencies : List Dependency
deriving DecidableEq, Repr

structure Metadata where
  packages : List Package
deriving DecidableEq, Repr

/-- `Package::dependencies`: what a build of the library needs. -/
def Package.buildDependencies (package : Package) : List Dependency :=
  package.dependencies.filter fun dependency => dependency.kind ≠ some "dev"

theorem Package.mem_buildDependencies {package : Package} {dependency : Dependency} :
    dependency ∈ package.buildDependencies ↔
      dependency ∈ package.dependencies ∧ dependency.kind ≠ some "dev" := by
  rw [buildDependencies, List.mem_filter, decide_eq_true_iff]

namespace Metadata

def byName (metadata : Metadata) : Finmap fun _ : String => Package :=
  metadata.packages.foldl (fun map package => map.insert package.name package) ∅

/-- The names that are pushed when a name is taken for the first time. -/
def pushed (byName : Finmap fun _ : String => Package) (name : String) : List String :=
  match byName.lookup name with
  | none => []
  | some package => (package.buildDependencies.map Dependency.name).filter fun name => name ∈ byName

/-- `by_name[name]` for each name. -/
def index (byName : Finmap fun _ : String => Package) : List String → Except String (List Package)
  | [] => .ok []
  | name :: names =>
    match byName.lookup name with
    | none => .error "no entry found for key"
    | some package => (index byName names).map (package :: ·)

/-- The stack is a list with its top in front. The outer error is a panic. -/
def closure (metadata : Metadata) (roots : List String) :
    Except String (AnyhowResult (List Package)) :=
  let byName := metadata.byName
  match Worklist.run byName.keys (pushed byName) roots.reverse ∅ with
  | .error name => .ok (.error (.msg ("tsrs has no crate named " ++ name)))
  | .ok seen => (index byName (seen.sort (· ≤ ·))).map .ok

/-! ## Reachability -/

/-- The package `a` needs the package `b` of the workspace. -/
def Needs (metadata : Metadata) (a b : String) : Prop :=
  ∃ package ∈ metadata.packages, package.name = a ∧
    (∃ dependency ∈ package.dependencies, dependency.kind ≠ some "dev" ∧ dependency.name = b) ∧
    ∃ other ∈ metadata.packages, other.name = b

/-- A root needs the package, directly or through others. -/
def Reachable (metadata : Metadata) (roots : List String) (name : String) : Prop :=
  ∃ root ∈ roots, Relation.ReflTransGen metadata.Needs root name

variable {metadata : Metadata}

theorem byName_append (packages : List Package) (last : Package) :
    byName ⟨packages ++ [last]⟩ = (byName ⟨packages⟩).insert last.name last :=
  List.foldl_append

variable (hunique : (metadata.packages.map Package.name).Nodup)

include hunique

theorem lookup_byName {name : String} {package : Package} :
    Finmap.lookup name metadata.byName = some package ↔
      package ∈ metadata.packages ∧ package.name = name := by
  obtain ⟨packages⟩ := metadata
  induction packages using List.reverseRecOn with
  | nil => simp [byName]
  | append_singleton packages last ih =>
    rw [List.map_append, List.map_singleton, List.nodup_append] at hunique
    obtain ⟨hbefore, _, hfresh⟩ := hunique
    rw [byName_append]
    by_cases hname : name = last.name
    · rw [hname, Finmap.lookup_insert]
      constructor
      · intro h
        obtain rfl := Option.some.inj h
        exact ⟨List.mem_append_right _ (List.mem_singleton_self _), rfl⟩
      · intro h
        obtain ⟨hmem, hsame⟩ := h
        rcases List.mem_append.mp hmem with hold | hnew
        · exact absurd hsame (hfresh _ (List.mem_map_of_mem hold) _ (List.mem_singleton_self _))
        · exact congrArg some (List.mem_singleton.mp hnew).symm
    · rw [Finmap.lookup_insert_of_ne _ hname, ih hbefore]
      refine and_congr_left fun hsame => ?_
      rw [List.mem_append, List.mem_singleton, or_iff_left]
      intro hlast
      exact hname (hsame ▸ hlast ▸ rfl)

theorem mem_byName {name : String} :
    name ∈ metadata.byName ↔ ∃ package ∈ metadata.packages, package.name = name := by
  rw [← Finmap.lookup_isSome, Option.isSome_iff_exists]
  exact exists_congr fun package => lookup_byName hunique

theorem mem_pushed {a b : String} : b ∈ pushed metadata.byName a ↔ metadata.Needs a b := by
  unfold pushed Needs
  cases hlookup : Finmap.lookup a metadata.byName with
  | none =>
    refine ⟨fun hmem => absurd hmem List.not_mem_nil, fun h => ?_⟩
    obtain ⟨package, hpackage, hname, _⟩ := h
    rw [(lookup_byName hunique).mpr ⟨hpackage, hname⟩] at hlookup
    cases hlookup
  | some package =>
    have hfound := (lookup_byName hunique).mp hlookup
    show b ∈ List.filter _ _ ↔ _
    rw [List.mem_filter, List.mem_map, decide_eq_true_iff, mem_byName hunique]
    simp only [Package.mem_buildDependencies, and_assoc]
    constructor
    · intro h
      exact ⟨package, hfound.1, hfound.2, h⟩
    · intro h
      obtain ⟨other, hother, hname, hneeds⟩ := h
      have hsame := (lookup_byName hunique).mpr ⟨hother, hname⟩
      rw [hlookup] at hsame
      obtain rfl := Option.some.inj hsame
      exact hneeds

theorem pushed_known (a : String) : ∀ b ∈ pushed metadata.byName a, b ∈ metadata.byName.keys := by
  intro b hb
  obtain ⟨_, _, _, _, hother⟩ := (mem_pushed hunique).mp hb
  exact Finmap.mem_keys.mpr ((mem_byName hunique).mpr hother)

/-- Every name that was seen is in the map. -/
theorem index_ok {names : List String} (h : ∀ name ∈ names, name ∈ metadata.byName) :
    ∃ packages, index metadata.byName names = .ok packages ∧ packages.map Package.name = names ∧
      ∀ package ∈ packages, package ∈ metadata.packages := by
  induction names with
  | nil => exact ⟨[], rfl, rfl, fun _ hmem => absurd hmem List.not_mem_nil⟩
  | cons name names ih =>
    obtain ⟨hname, hrest⟩ := List.forall_mem_cons.mp h
    obtain ⟨packages, hindex, hnames, hmem⟩ := ih hrest
    obtain ⟨package, hlookup⟩ := Option.isSome_iff_exists.mp (Finmap.lookup_isSome.mpr hname)
    have hfound := (lookup_byName hunique).mp hlookup
    refine ⟨package :: packages, ?_, ?_, List.forall_mem_cons.mpr ⟨hfound.1, hmem⟩⟩
    · unfold index
      rw [hlookup, hindex]
      rfl
    · rw [List.map_cons, hnames, hfound.2]

omit hunique in
theorem seen_known {roots : List String} {seen : Finset String}
    (h : Worklist.run metadata.byName.keys (pushed metadata.byName) roots.reverse ∅ = .ok seen) :
    ∀ name ∈ seen.sort (· ≤ ·), name ∈ metadata.byName := by
  intro name hname
  have hseen := Worklist.run_subset h (Finset.empty_subset _) ((Finset.mem_sort _).mp hname)
  exact Finmap.mem_keys.mp hseen

omit hunique in
theorem closure_of_error {roots : List String} {name : String}
    (h : Worklist.run metadata.byName.keys (pushed metadata.byName) roots.reverse ∅ = .error name) :
    metadata.closure roots = .ok (.error (.msg ("tsrs has no crate named " ++ name))) := by
  unfold closure
  simp only [h]

/-- The names that a worklist gives, and the packages that have them. -/
theorem closure_of_ok {roots : List String} {seen : Finset String}
    (h : Worklist.run metadata.byName.keys (pushed metadata.byName) roots.reverse ∅ = .ok seen) :
    ∃ packages, metadata.closure roots = .ok (.ok packages) ∧
      packages.map Package.name = seen.sort (· ≤ ·) ∧
      ∀ package ∈ packages, package ∈ metadata.packages := by
  obtain ⟨packages, hindex, hnames, hmem⟩ := index_ok hunique (seen_known h)
  refine ⟨packages, ?_, hnames, hmem⟩
  unfold closure
  simp only [h, hindex]
  rfl

/-! ## The closure -/

theorem roots_known_iff {roots : List String} :
    (∀ root ∈ roots.reverse, root ∈ metadata.byName.keys) ↔
      ∀ root ∈ roots, ∃ package ∈ metadata.packages, package.name = root := by
  refine forall_congr' fun root => ?_
  rw [List.mem_reverse, Finmap.mem_keys, mem_byName hunique]

omit hunique in
theorem closure_run {roots : List String} {packages : List Package}
    (h : metadata.closure roots = .ok (.ok packages)) : ∃ seen,
      Worklist.run metadata.byName.keys (pushed metadata.byName) roots.reverse ∅ = .ok seen := by
  cases hrun : Worklist.run metadata.byName.keys (pushed metadata.byName) roots.reverse ∅ with
  | error name =>
    rw [closure_of_error hrun] at h
    cases h
  | ok seen => exact ⟨seen, rfl⟩

/-- The closure of the roots exists exactly if they are packages, and it never panics. -/
theorem closure_ok_iff (roots : List String) :
    (∃ result, metadata.closure roots = .ok result) ∧
      ((∃ packages, metadata.closure roots = .ok (.ok packages)) ↔
        ∀ root ∈ roots, ∃ package ∈ metadata.packages, package.name = root) := by
  rw [← roots_known_iff hunique]
  cases hrun : Worklist.run metadata.byName.keys (pushed metadata.byName) roots.reverse ∅ with
  | error name =>
    have hclosure := closure_of_error hrun
    obtain ⟨hmem, hunknown⟩ := Worklist.run_error (pushed_known hunique) hrun
    refine ⟨⟨_, hclosure⟩, fun h => ?_, fun h => absurd (h name hmem) hunknown⟩
    obtain ⟨packages, hpackages⟩ := h
    rw [hclosure] at hpackages
    cases hpackages
  | ok seen =>
    obtain ⟨packages, hclosure, _⟩ := closure_of_ok hunique hrun
    exact ⟨⟨_, hclosure⟩, fun _ => Worklist.run_known hrun, fun _ => ⟨packages, hclosure⟩⟩

/-- The closure is the packages that the roots reach, in order of their names. -/
theorem closure_spec {roots : List String} {packages : List Package}
    (h : metadata.closure roots = .ok (.ok packages)) :
    (packages.map Package.name).Pairwise (· < ·) ∧ ∀ package, package ∈ packages ↔
      package ∈ metadata.packages ∧ metadata.Reachable roots package.name := by
  obtain ⟨seen, hrun⟩ := closure_run h
  obtain ⟨found, hclosure, hnames, hmem⟩ := closure_of_ok hunique hrun
  rw [h] at hclosure
  obtain rfl := Except.ok.inj (Except.ok.inj hclosure)
  have hreach : ∀ name, name ∈ seen ↔ metadata.Reachable roots name := by
    intro name
    rw [Worklist.mem_run hrun]
    have hsteps : (fun a b => b ∈ pushed metadata.byName a) = metadata.Needs := by
      funext a b
      exact propext (mem_pushed hunique)
    unfold Worklist.Reaches Reachable
    rw [hsteps]
    exact exists_congr fun root => and_congr_left fun _ => List.mem_reverse
  constructor
  · rw [hnames]
    exact (Finset.sortedLT_sort seen).pairwise
  · intro package
    constructor
    · intro hpackage
      refine ⟨hmem package hpackage, (hreach _).mp ((Finset.mem_sort (· ≤ ·)).mp ?_)⟩
      exact hnames ▸ List.mem_map_of_mem hpackage
    · intro hpackage
      obtain ⟨hdeclared, hreachable⟩ := hpackage
      have hname : package.name ∈ packages.map Package.name := by
        rw [hnames]
        exact (Finset.mem_sort _).mpr ((hreach _).mpr hreachable)
      obtain ⟨other, hother, hsame⟩ := List.mem_map.mp hname
      exact List.inj_on_of_nodup_map hunique (hmem other hother) hdeclared hsame ▸ hother

end Metadata

end Bundle

end Stiles
