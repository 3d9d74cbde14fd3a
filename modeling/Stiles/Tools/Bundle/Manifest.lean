import Stiles.Tools.Bundle.Metadata

/-
  The dependencies of the bundle, merged from the crates that declare them (`manifest.rs` of
  `bundle-tsrs`).

  `Merges declared sections` says that the sections are what the declared dependencies come to. The
  declarations decide the sections, whatever their order.

  * `merge_ok_iff`: which declarations can be merged.
  * `merge_merges`: what they are merged to.
  * `closure_and_merge`: both halves of the dependencies of a bundle, in any order of the packages.
-/

namespace Stiles

namespace Bundle

inductive Kind where
  | Normal
  | Build
deriving DecidableEq, Repr

/-- The table a dependency goes in. -/
structure Section where
  target : Option String
  kind : Kind
deriving DecidableEq, Repr

/-- A dependency of the bundle. -/
structure Merged where
  req : String
  defaultFeatures : DefaultFeatures
  features : Finset String
deriving DecidableEq

abbrev Table := Finmap fun _ : String => Merged

abbrev Sections := Finmap fun _ : Section => Table

/-- `req.strip_prefix('^').unwrap_or(req)`. -/
def stripCaret (req : String) : String :=
  match req.toList with
  | '^' :: rest => String.ofList rest
  | _ => req

def convert (package : Package) (dependency : Dependency) : AnyhowResult (Section × Merged) :=
  match dependency.rename with
  | some rename =>
    .error (.msg (package.name ++ " renames " ++ dependency.name ++ " to " ++ rename ++
      ", which the bundle does not support"))
  | none =>
    match dependency.optional with
    | .Optional =>
      .error (.msg (package.name ++ " depends on " ++ dependency.name ++
        " as an option, and the bundle has no features"))
    | .Required =>
      let merged : Merged :=
        { req := stripCaret dependency.req
          defaultFeatures := dependency.usesDefaultFeatures
          features := dependency.features.toFinset }
      match dependency.kind with
      | none => .ok ({ target := dependency.target, kind := .Normal }, merged)
      | some "build" => .ok ({ target := dependency.target, kind := .Build }, merged)
      | some other =>
        .error (.msg (package.name ++ " has a dependency of the unknown kind " ++ other))

/-- A dependency that the table holds takes the default features and the features of another one. -/
def Merged.extend (existing merged : Merged) : Merged where
  req := existing.req
  defaultFeatures := if merged.defaultFeatures = .On then .On else existing.defaultFeatures
  features := existing.features ∪ merged.features

/-- The body of the inner loop of `merge`. -/
def mergeDependency (crates : Finset String) (package : Package) (sections : Sections)
    (dependency : Dependency) : AnyhowResult Sections :=
  let name := dependency.name
  if name ∈ crates then .ok sections
  else
    match withContext ("failed to read the dependency on " ++ name)
      (convert package dependency) with
    | .error e => .error e
    | .ok (key, merged) =>
      let table := (sections.lookup key).getD ∅
      match table.lookup name with
      | none => .ok (sections.insert key (table.insert name merged))
      | some existing =>
        if existing.req = merged.req then
          .ok (sections.insert key (table.insert name (existing.extend merged)))
        else
          .error (.msg ("the tsrs crates require " ++ name ++ " at " ++ existing.req ++
            " and at " ++ merged.req))

def merge (packages : List Package) (crates : Finset String) : AnyhowResult Sections :=
  packages.foldlM (fun sections package =>
    package.buildDependencies.foldlM (mergeDependency crates package) sections) ∅

/-! ## What the declarations come to -/

/-- The bundle can have the dependency. -/
def Dependency.Supported (dependency : Dependency) : Prop :=
  dependency.rename = none ∧ dependency.optional = .Required ∧
    (dependency.kind = none ∨ dependency.kind = some "build")

def Dependency.place (dependency : Dependency) : Section where
  target := dependency.target
  kind := if dependency.kind = some "build" then .Build else .Normal

/-- The dependency goes in the table `key` under `name`. -/
def Dependency.At (dependency : Dependency) (key : Section) (name : String) : Prop :=
  dependency.place = key ∧ dependency.name = name

/-- What a dependency comes to on its own. -/
def Dependency.alone (dependency : Dependency) : Merged where
  req := stripCaret dependency.req
  defaultFeatures := dependency.usesDefaultFeatures
  features := dependency.features.toFinset

/-- The entry of a table. -/
def find (sections : Sections) (key : Section) (name : String) : Option Merged :=
  Finmap.lookup name ((Finmap.lookup key sections).getD ∅)

/-- The dependencies that the packages declare, but for those of tests and the crates of the
    bundle. -/
def external (packages : List Package) (crates : Finset String) : List Dependency :=
  (packages.flatMap Package.dependencies).filter fun dependency =>
    dependency.kind ≠ some "dev" ∧ dependency.name ∉ crates

/-- The bundle can have each declaration, and those of one entry ask for one version. -/
def Consistent (declared : List Dependency) : Prop :=
  (∀ dependency ∈ declared, dependency.Supported) ∧
    ∀ dependency ∈ declared, ∀ other ∈ declared, dependency.At other.place other.name →
      stripCaret dependency.req = stripCaret other.req

/-- The sections are what the declarations come to. -/
structure Merges (declared : List Dependency) (sections : Sections) : Prop where
  present : ∀ key name, (find sections key name).isSome ↔
    ∃ dependency ∈ declared, dependency.At key name
  req : ∀ key name merged, find sections key name = some merged →
    ∀ dependency ∈ declared, dependency.At key name → stripCaret dependency.req = merged.req
  defaults : ∀ key name merged, find sections key name = some merged →
    (merged.defaultFeatures = .On ↔
      ∃ dependency ∈ declared, dependency.At key name ∧ dependency.usesDefaultFeatures = .On)
  features : ∀ key name merged, find sections key name = some merged → ∀ feature,
    (feature ∈ merged.features ↔
      ∃ dependency ∈ declared, dependency.At key name ∧ feature ∈ dependency.features)
  /-- No table is empty. -/
  filled : ∀ key table, Finmap.lookup key sections = some table →
    ∃ name, (Finmap.lookup name table).isSome

theorem merges_nil : Merges [] ∅ where
  present := by simp [find]
  req := by simp
  defaults := by simp [find]
  features := by simp [find]
  filled := by simp

/-! ## One dependency -/

theorem convert_supported (package : Package) {dependency : Dependency}
    (h : dependency.Supported) :
    convert package dependency = .ok (dependency.place, dependency.alone) := by
  obtain ⟨hrename, hoptional, hkind⟩ := h
  unfold convert
  rw [hrename, hoptional]
  rcases hkind with hnormal | hbuild
  · simp only [hnormal]
    rw [Dependency.place, if_neg (by simp [hnormal])]
    rfl
  · simp only [hbuild]
    rw [Dependency.place, if_pos hbuild]
    rfl

theorem supported_of_convert {package : Package} {dependency : Dependency}
    {converted : Section × Merged} (h : convert package dependency = .ok converted) :
    dependency.Supported := by
  unfold convert at h
  split at h
  · cases h
  · rename_i hrename
    split at h
    · cases h
    · rename_i hoptional
      split at h
      · rename_i hkind
        exact ⟨hrename, hoptional, Or.inl hkind⟩
      · rename_i hkind
        exact ⟨hrename, hoptional, Or.inr hkind⟩
      · cases h

/-- The sections with one entry set. -/
def put (sections : Sections) (key : Section) (name : String) (merged : Merged) : Sections :=
  sections.insert key (((Finmap.lookup key sections).getD ∅).insert name merged)

theorem find_put (sections : Sections) (key other : Section) (name word : String)
    (merged : Merged) : find (put sections key name merged) other word
      = if other = key ∧ word = name then some merged else find sections other word := by
  unfold find put
  by_cases hkey : other = key
  · rw [hkey, Finmap.lookup_insert, Option.getD_some]
    by_cases hname : word = name
    · rw [hname, Finmap.lookup_insert, if_pos ⟨rfl, rfl⟩]
    · rw [Finmap.lookup_insert_of_ne _ hname, if_neg fun h => hname h.2]
  · rw [Finmap.lookup_insert_of_ne _ hkey, if_neg fun h => hkey h.1]

/-- A dependency that can be merged, by what the table holds for it. -/
theorem mergeDependency_supported {crates : Finset String} {package : Package}
    {sections : Sections} {dependency : Dependency} (hexternal : dependency.name ∉ crates)
    (h : dependency.Supported) : mergeDependency crates package sections dependency =
      match find sections dependency.place dependency.name with
      | none => .ok (put sections dependency.place dependency.name dependency.alone)
      | some existing =>
        if existing.req = stripCaret dependency.req then
          .ok (put sections dependency.place dependency.name (existing.extend dependency.alone))
        else
          .error (.msg ("the tsrs crates require " ++ dependency.name ++ " at " ++ existing.req ++
            " and at " ++ stripCaret dependency.req)) := by
  unfold mergeDependency
  simp only [if_neg hexternal, convert_supported package h, withContext_ok]
  rfl

theorem mergeDependency_unsupported {crates : Finset String} {package : Package}
    {sections : Sections} {dependency : Dependency} (hexternal : dependency.name ∉ crates)
    (h : ¬dependency.Supported) :
    ∃ e, mergeDependency crates package sections dependency = .error e := by
  unfold mergeDependency
  simp only [if_neg hexternal]
  cases hconvert : convert package dependency with
  | error e => exact ⟨_, rfl⟩
  | ok converted => exact absurd (supported_of_convert hconvert) h

/-! ## One more declaration -/

variable {declared : List Dependency} {sections : Sections} {dependency : Dependency}

/-- A declaration more, for which the entry of its place is set to what it must be. -/
theorem Merges.put (h : Merges declared sections) {merged : Merged}
    (hreq : stripCaret dependency.req = merged.req)
    (hagree : ∀ other ∈ declared, other.At dependency.place dependency.name →
      stripCaret other.req = merged.req)
    (hdefaults : merged.defaultFeatures = .On ↔
      (∃ other ∈ declared, other.At dependency.place dependency.name ∧
        other.usesDefaultFeatures = .On) ∨ dependency.usesDefaultFeatures = .On)
    (hfeatures : ∀ feature, feature ∈ merged.features ↔
      (∃ other ∈ declared, other.At dependency.place dependency.name ∧
        feature ∈ other.features) ∨ feature ∈ dependency.features) :
    Merges (declared ++ [dependency])
      (put sections dependency.place dependency.name merged) := by
  have hhere : dependency.At dependency.place dependency.name := ⟨rfl, rfl⟩
  have helsewhere : ∀ {key : Section} {name : String},
      ¬(key = dependency.place ∧ name = dependency.name) → ¬dependency.At key name :=
    fun hne hat => hne ⟨hat.1.symm, hat.2.symm⟩
  have hsplit : ∀ p : Dependency → Prop, (∃ other ∈ declared ++ [dependency], p other) ↔
      (∃ other ∈ declared, p other) ∨ p dependency := by
    intro p
    simp [or_and_right, exists_or]
  refine ⟨fun key name => ?_, fun key name found hfound => ?_, fun key name found hfound => ?_,
    fun key name found hfound feature => ?_, fun key table htable => ?_⟩
  · rw [find_put, hsplit]
    by_cases hplace : key = dependency.place ∧ name = dependency.name
    · obtain ⟨rfl, rfl⟩ := hplace
      rw [if_pos ⟨rfl, rfl⟩]
      exact ⟨fun _ => Or.inr hhere, fun _ => rfl⟩
    · rw [if_neg hplace, h.present, or_iff_left (helsewhere hplace)]
  · rw [find_put] at hfound
    intro other hother hat
    by_cases hplace : key = dependency.place ∧ name = dependency.name
    · obtain ⟨rfl, rfl⟩ := hplace
      rw [if_pos ⟨rfl, rfl⟩] at hfound
      obtain rfl := Option.some.inj hfound
      rcases List.mem_append.mp hother with hold | hnew
      · exact hagree other hold hat
      · exact List.mem_singleton.mp hnew ▸ hreq
    · rw [if_neg hplace] at hfound
      rcases List.mem_append.mp hother with hold | hnew
      · exact h.req key name found hfound other hold hat
      · exact absurd (List.mem_singleton.mp hnew ▸ hat) (helsewhere hplace)
  · rw [find_put] at hfound
    rw [hsplit]
    by_cases hplace : key = dependency.place ∧ name = dependency.name
    · obtain ⟨rfl, rfl⟩ := hplace
      rw [if_pos ⟨rfl, rfl⟩] at hfound
      obtain rfl := Option.some.inj hfound
      rw [hdefaults, and_iff_right hhere]
    · rw [if_neg hplace] at hfound
      rw [h.defaults key name found hfound, or_iff_left fun hat => helsewhere hplace hat.1]
  · rw [find_put] at hfound
    rw [hsplit]
    by_cases hplace : key = dependency.place ∧ name = dependency.name
    · obtain ⟨rfl, rfl⟩ := hplace
      rw [if_pos ⟨rfl, rfl⟩] at hfound
      obtain rfl := Option.some.inj hfound
      rw [hfeatures, and_iff_right hhere]
    · rw [if_neg hplace] at hfound
      rw [h.features key name found hfound, or_iff_left fun hat => helsewhere hplace hat.1]
  · unfold Bundle.put at htable
    by_cases hkey : key = dependency.place
    · rw [hkey, Finmap.lookup_insert] at htable
      obtain rfl := Option.some.inj htable
      exact ⟨dependency.name, by rw [Finmap.lookup_insert]; rfl⟩
    · rw [Finmap.lookup_insert_of_ne _ hkey] at htable
      exact h.filled key table htable

theorem Merges.put_new (h : Merges declared sections)
    (hnone : find sections dependency.place dependency.name = none) :
    Merges (declared ++ [dependency])
      (Bundle.put sections dependency.place dependency.name dependency.alone) := by
  have hfresh : ∀ other ∈ declared, ¬other.At dependency.place dependency.name := by
    intro other hother hat
    have hsome := (h.present _ _).mpr ⟨other, hother, hat⟩
    rw [hnone] at hsome
    cases hsome
  refine h.put rfl (fun other hother hat => absurd hat (hfresh other hother)) ?_ fun feature => ?_
  · rw [or_iff_right]
    · rfl
    · intro hother
      obtain ⟨other, hmem, hat, _⟩ := hother
      exact hfresh other hmem hat
  · rw [or_iff_right]
    · exact List.mem_toFinset
    · intro hother
      obtain ⟨other, hmem, hat, _⟩ := hother
      exact hfresh other hmem hat

theorem Merges.put_extend (h : Merges declared sections) {existing : Merged}
    (hsome : find sections dependency.place dependency.name = some existing)
    (hreq : existing.req = stripCaret dependency.req) :
    Merges (declared ++ [dependency]) (Bundle.put sections dependency.place dependency.name
      (existing.extend dependency.alone)) := by
  refine h.put hreq.symm (h.req _ _ existing hsome) ?_ fun feature => ?_
  · rw [← h.defaults _ _ existing hsome]
    show (if dependency.usesDefaultFeatures = .On then _ else _) = _ ↔ _
    by_cases hon : dependency.usesDefaultFeatures = .On
    · simp [hon]
    · simp [hon]
  · rw [← h.features _ _ existing hsome]
    show feature ∈ existing.features ∪ dependency.features.toFinset ↔ _
    rw [Finset.mem_union, List.mem_toFinset]

/-- What cannot be merged is not merged. -/
theorem mergeDependency_ok {crates : Finset String} {package : Package} {merged : Sections}
    (h : Merges declared sections) (hexternal : dependency.name ∉ crates)
    (hconsistent : Consistent declared)
    (hok : mergeDependency crates package sections dependency = .ok merged) :
    Consistent (declared ++ [dependency]) ∧ Merges (declared ++ [dependency]) merged := by
  have hsupported : dependency.Supported := by
    by_contra hnot
    obtain ⟨e, herror⟩ := mergeDependency_unsupported hexternal hnot
    rw [herror] at hok
    cases hok
  have hall : ∀ other ∈ declared ++ [dependency], other.Supported := by
    intro other hother
    rcases List.mem_append.mp hother with hold | hnew
    · exact hconsistent.1 other hold
    · exact List.mem_singleton.mp hnew ▸ hsupported
  have hlater : (∀ other ∈ declared, other.At dependency.place dependency.name →
      stripCaret other.req = stripCaret dependency.req) → Consistent (declared ++ [dependency]) := by
    intro hagree
    refine ⟨hall, fun left hleft right hright hat => ?_⟩
    rcases List.mem_append.mp hleft with hl | hl <;> rcases List.mem_append.mp hright with hr | hr
    · exact hconsistent.2 left hl right hr hat
    · obtain rfl := List.mem_singleton.mp hr
      exact hagree left hl hat
    · obtain rfl := List.mem_singleton.mp hl
      exact (hagree right hr ⟨hat.1.symm, hat.2.symm⟩).symm
    · rw [List.mem_singleton.mp hl, List.mem_singleton.mp hr]
  rw [mergeDependency_supported hexternal hsupported] at hok
  cases hfind : find sections dependency.place dependency.name with
  | none =>
    rw [hfind] at hok
    obtain rfl := Except.ok.inj hok
    refine ⟨hlater fun other hother hat => ?_, h.put_new hfind⟩
    have hsome := (h.present _ _).mpr ⟨other, hother, hat⟩
    rw [hfind] at hsome
    cases hsome
  | some existing =>
    rw [hfind] at hok
    by_cases hreq : existing.req = stripCaret dependency.req
    · simp only [if_pos hreq] at hok
      obtain rfl := Except.ok.inj hok
      refine ⟨hlater fun other hother hat => ?_, h.put_extend hfind hreq⟩
      exact (h.req _ _ existing hfind other hother hat).trans hreq
    · simp only [if_neg hreq] at hok
      cases hok

/-- What can be merged is merged. -/
theorem mergeDependency_of_consistent {crates : Finset String} (package : Package)
    (h : Merges declared sections) (hexternal : dependency.name ∉ crates)
    (hconsistent : Consistent (declared ++ [dependency])) :
    ∃ merged, mergeDependency crates package sections dependency = .ok merged := by
  have hmem : dependency ∈ declared ++ [dependency] :=
    List.mem_append_right _ (List.mem_singleton_self _)
  rw [mergeDependency_supported hexternal (hconsistent.1 _ hmem)]
  cases hfind : find sections dependency.place dependency.name with
  | none => exact ⟨_, rfl⟩
  | some existing =>
    obtain ⟨other, hother, hat⟩ := (h.present _ _).mp (Option.isSome_of_mem hfind)
    have hreq : existing.req = stripCaret dependency.req := by
      rw [← h.req _ _ existing hfind other hother hat]
      exact hconsistent.2 other (List.mem_append_left _ hother) dependency hmem hat
    exact ⟨_, if_pos hreq⟩

/-! ## All declarations -/

/-- The dependencies in the order in which they are merged, each with the package that has it. -/
def pairs (packages : List Package) : List (Package × Dependency) :=
  packages.flatMap fun package => package.buildDependencies.map (package, ·)

/-- One turn of the loops. -/
def mergePair (crates : Finset String) (sections : Sections) (pair : Package × Dependency) :
    AnyhowResult Sections :=
  mergeDependency crates pair.1 sections pair.2

theorem merge_eq (packages : List Package) (crates : Finset String) :
    merge packages crates = (pairs packages).foldlM (mergePair crates) ∅ := by
  unfold merge pairs
  generalize (∅ : Sections) = sections
  induction packages generalizing sections with
  | nil => rfl
  | cons package packages ih =>
    rw [List.flatMap_cons, List.foldlM_cons, List.foldlM_append, List.foldlM_map]
    exact congrArg _ (funext ih)

/-- The dependencies of pairs that are no crate of the bundle. -/
def externalOf (crates : Finset String) (pairs : List (Package × Dependency)) :
    List Dependency :=
  (pairs.map Prod.snd).filter fun dependency => dependency.name ∉ crates

theorem externalOf_pairs (packages : List Package) (crates : Finset String) :
    externalOf crates (pairs packages) = external packages crates := by
  unfold externalOf external pairs
  rw [List.map_flatMap, List.filter_flatMap, List.filter_flatMap]
  refine List.flatMap_congr fun package _ => ?_
  rw [List.map_map, show Prod.snd ∘ (package, ·) = id from rfl, List.map_id,
    Package.buildDependencies, List.filter_filter]
  refine List.filter_congr fun dependency _ => ?_
  rw [Bool.decide_and, Bool.and_comm]

theorem Consistent.of_append {more : List Dependency} (h : Consistent (declared ++ more)) :
    Consistent declared :=
  ⟨fun dependency hdependency => h.1 dependency (List.mem_append_left _ hdependency),
    fun dependency hdependency other hother =>
      h.2 dependency (List.mem_append_left _ hdependency) other (List.mem_append_left _ hother)⟩

/-- What a run over the rest of the pairs comes to. -/
theorem foldlM_mergePair (crates : Finset String) (rest : List (Package × Dependency))
    (h : Merges declared sections) (hconsistent : Consistent declared) :
    (∀ merged, rest.foldlM (mergePair crates) sections = .ok merged →
      Consistent (declared ++ externalOf crates rest) ∧
        Merges (declared ++ externalOf crates rest) merged) ∧
    (Consistent (declared ++ externalOf crates rest) →
      ∃ merged, rest.foldlM (mergePair crates) sections = .ok merged) := by
  induction rest generalizing declared sections with
  | nil =>
    have hnil : declared ++ externalOf crates [] = declared := List.append_nil _
    rw [hnil]
    refine ⟨fun merged hok => ?_, fun _ => ⟨sections, rfl⟩⟩
    obtain rfl := Except.ok.inj hok
    exact ⟨hconsistent, h⟩
  | cons pair rest ih =>
    obtain ⟨package, dependency⟩ := pair
    by_cases hexternal : dependency.name ∈ crates
    · have hskip : mergePair crates sections (package, dependency) = .ok sections :=
        if_pos hexternal
      have hrest : externalOf crates ((package, dependency) :: rest) = externalOf crates rest := by
        unfold externalOf
        rw [List.map_cons, List.filter_cons_of_neg (by simpa using hexternal)]
      have hfold : ((package, dependency) :: rest).foldlM (mergePair crates) sections
          = rest.foldlM (mergePair crates) sections := by
        rw [List.foldlM_cons, hskip]
        rfl
      rw [hrest, hfold]
      exact ih h hconsistent
    · have hrest : declared ++ externalOf crates ((package, dependency) :: rest)
          = (declared ++ [dependency]) ++ externalOf crates rest := by
        unfold externalOf
        rw [List.map_cons, List.filter_cons_of_pos (by simpa using hexternal), List.append_assoc]
        rfl
      rw [hrest, List.foldlM_cons]
      constructor
      · intro merged hok
        cases hstep : mergePair crates sections (package, dependency) with
        | error e =>
          rw [hstep] at hok
          cases hok
        | ok next =>
          rw [hstep] at hok
          obtain ⟨hlater, hmerges⟩ := mergeDependency_ok h hexternal hconsistent hstep
          exact (ih hmerges hlater).1 merged hok
      · intro hall
        obtain ⟨next, hstep⟩ := mergeDependency_of_consistent package h hexternal hall.of_append
        obtain ⟨hlater, hmerges⟩ := mergeDependency_ok h hexternal hconsistent hstep
        obtain ⟨merged, hmerged⟩ := (ih hmerges hlater).2 hall
        refine ⟨merged, ?_⟩
        have hpair : mergePair crates sections (package, dependency) = .ok next := hstep
        rw [hpair]
        exact hmerged

theorem consistent_nil : Consistent [] :=
  ⟨fun _ hmem => absurd hmem List.not_mem_nil, fun _ hmem => absurd hmem List.not_mem_nil⟩

/-- The dependencies can be merged exactly if their declarations are consistent. -/
theorem merge_ok_iff (packages : List Package) (crates : Finset String) :
    (∃ sections, merge packages crates = .ok sections) ↔ Consistent (external packages crates) := by
  rw [merge_eq, ← externalOf_pairs]
  have hrun := foldlM_mergePair crates (pairs packages) merges_nil consistent_nil
  rw [List.nil_append] at hrun
  constructor
  · intro h
    obtain ⟨sections, hok⟩ := h
    exact (hrun.1 sections hok).1
  · exact hrun.2

theorem merge_merges {packages : List Package} {crates : Finset String} {sections : Sections}
    (h : merge packages crates = .ok sections) : Merges (external packages crates) sections := by
  rw [merge_eq] at h
  have hrun := foldlM_mergePair crates (pairs packages) merges_nil consistent_nil
  rw [List.nil_append, externalOf_pairs] at hrun
  exact (hrun.1 sections h).2

/-! ## The order does not matter -/

theorem mem_external_perm {packages packages' : List Package} (h : packages.Perm packages')
    (crates : Finset String) (dependency : Dependency) :
    dependency ∈ external packages crates ↔ dependency ∈ external packages' crates :=
  ((h.flatMap_right _).filter _).mem_iff

theorem consistent_congr {declared declared' : List Dependency}
    (h : ∀ dependency, dependency ∈ declared ↔ dependency ∈ declared') :
    Consistent declared ↔ Consistent declared' := by
  unfold Consistent
  simp only [h]

theorem on_of_iff {x y : DefaultFeatures} (h : x = .On ↔ y = .On) : x = y := by
  cases x <;> cases y <;> simp_all

/-- The declarations decide what stands in a table. -/
theorem find_unique {declared declared' : List Dependency} {sections sections' : Sections}
    (h : Merges declared sections) (h' : Merges declared' sections')
    (hsame : ∀ dependency, dependency ∈ declared ↔ dependency ∈ declared') (key : Section)
    (name : String) : find sections key name = find sections' key name := by
  have hpresent : (find sections key name).isSome ↔ (find sections' key name).isSome := by
    rw [h.present, h'.present]
    simp only [hsame]
  cases hfind : find sections key name with
  | none =>
    rw [hfind] at hpresent
    exact (Option.not_isSome_iff_eq_none.mp fun hsome => by simpa using hpresent.mpr hsome).symm
  | some merged =>
    obtain ⟨merged', hfind'⟩ := Option.isSome_iff_exists.mp (hpresent.mp (Option.isSome_of_mem hfind))
    obtain ⟨dependency, hdependency, hat⟩ := (h.present _ _).mp (Option.isSome_of_mem hfind)
    have hreq : merged.req = merged'.req := by
      rw [← h.req _ _ _ hfind dependency hdependency hat]
      exact h'.req _ _ _ hfind' dependency ((hsame _).mp hdependency) hat
    have hdefaults : merged.defaultFeatures = merged'.defaultFeatures := by
      refine on_of_iff ?_
      rw [h.defaults _ _ _ hfind, h'.defaults _ _ _ hfind']
      simp only [hsame]
    have hfeatures : merged.features = merged'.features := by
      ext feature
      rw [h.features _ _ _ hfind, h'.features _ _ _ hfind']
      simp only [hsame]
    rw [hfind']
    obtain ⟨req, defaults, features⟩ := merged
    obtain ⟨req', defaults', features'⟩ := merged'
    obtain rfl := hreq
    obtain rfl := hdefaults
    obtain rfl := hfeatures
    rfl

/-- A table that is there holds an entry that `find` finds. -/
theorem table_found (h : Merges declared sections) {key : Section} {table : Table}
    (htable : Finmap.lookup key sections = some table) :
    (∀ name, find sections key name = Finmap.lookup name table) ∧
      ∃ name, (find sections key name).isSome := by
  have hfind : ∀ name, find sections key name = Finmap.lookup name table := by
    intro name
    unfold find
    rw [htable]
    rfl
  obtain ⟨name, hname⟩ := h.filled key table htable
  exact ⟨hfind, name, by rw [hfind]; exact hname⟩

theorem find_of_lookup_none {key : Section} (h : Finmap.lookup key sections = none)
    (name : String) : find sections key name = none := by
  unfold find
  rw [h]
  exact Finmap.lookup_empty name

/-- The declarations decide the sections. -/
theorem merges_unique {declared declared' : List Dependency} {sections sections' : Sections}
    (h : Merges declared sections) (h' : Merges declared' sections')
    (hsame : ∀ dependency, dependency ∈ declared ↔ dependency ∈ declared') :
    sections = sections' := by
  have hfind := find_unique h h' hsame
  refine Finmap.ext_lookup fun key => ?_
  cases htable : Finmap.lookup key sections with
  | none =>
    cases htable' : Finmap.lookup key sections' with
    | none => rfl
    | some table' =>
      obtain ⟨_, name, hname⟩ := table_found h' htable'
      rw [← hfind, find_of_lookup_none htable] at hname
      cases hname
  | some table =>
    obtain ⟨hlookup, name, hname⟩ := table_found h htable
    cases htable' : Finmap.lookup key sections' with
    | none =>
      rw [hfind, find_of_lookup_none htable'] at hname
      cases hname
    | some table' =>
      obtain ⟨hlookup', _⟩ := table_found h' htable'
      refine congrArg some (Finmap.ext_lookup fun name => ?_)
      rw [← hlookup, ← hlookup', hfind]

/-- Neither the order of the packages nor the order of their dependencies matters. -/
theorem merge_congr {packages packages' : List Package} {crates : Finset String}
    (hmem : ∀ dependency, dependency ∈ external packages crates ↔
      dependency ∈ external packages' crates)
    {sections : Sections} (hmerge : merge packages crates = .ok sections) :
    merge packages' crates = .ok sections := by
  have hconsistent := (merge_ok_iff packages crates).mp ⟨sections, hmerge⟩
  obtain ⟨sections', hmerge'⟩ := (merge_ok_iff packages' crates).mpr
    ((consistent_congr hmem).mp hconsistent)
  rw [hmerge', merges_unique (merge_merges hmerge) (merge_merges hmerge') hmem]

/-- The dependencies of a bundle: the closure is what the roots reach, and what it declares outside
    the bundle is merged, in any order of the packages. -/
theorem closure_and_merge {metadata : Metadata}
    (hunique : (metadata.packages.map Package.name).Nodup) (roots : List String) :
    (∃ result, metadata.closure roots = .ok result) ∧
    ((∃ packages, metadata.closure roots = .ok (.ok packages)) ↔
      ∀ root ∈ roots, ∃ package ∈ metadata.packages, package.name = root) ∧
    ∀ packages, metadata.closure roots = .ok (.ok packages) →
      (packages.map Package.name).Pairwise (· < ·) ∧
      (∀ package, package ∈ packages ↔
        package ∈ metadata.packages ∧ metadata.Reachable roots package.name) ∧
      ∀ (crates : Finset String) (order : List Package), order.Perm packages →
        (∀ sections, merge order crates = .ok sections ↔ merge packages crates = .ok sections) ∧
        ∀ sections, merge packages crates = .ok sections → ∀ key name,
          match find sections key name with
          | none => ∀ dependency ∈ external packages crates, ¬dependency.At key name
          | some merged => name ∉ crates ∧
            (∃ dependency ∈ external packages crates, dependency.At key name) ∧
            (∀ dependency ∈ external packages crates, dependency.At key name →
              stripCaret dependency.req = merged.req) ∧
            (merged.defaultFeatures = .On ↔ ∃ dependency ∈ external packages crates,
              dependency.At key name ∧ dependency.usesDefaultFeatures = .On) ∧
            ∀ feature, feature ∈ merged.features ↔ ∃ dependency ∈ external packages crates,
              dependency.At key name ∧ feature ∈ dependency.features := by
  obtain ⟨htotal, hok⟩ := Metadata.closure_ok_iff hunique roots
  refine ⟨htotal, hok, fun packages hclosure => ?_⟩
  obtain ⟨hsorted, hmem⟩ := Metadata.closure_spec hunique hclosure
  refine ⟨hsorted, hmem, fun crates order hperm => ⟨fun sections => ?_, ?_⟩⟩
  · exact ⟨merge_congr (mem_external_perm hperm crates),
      merge_congr (mem_external_perm hperm.symm crates)⟩
  · intro sections hmerge key name
    have hmerges := merge_merges hmerge
    cases hfind : find sections key name with
    | none =>
      intro dependency hdependency hat
      have hsome := (hmerges.present key name).mpr ⟨dependency, hdependency, hat⟩
      rw [hfind] at hsome
      cases hsome
    | some merged =>
      obtain ⟨dependency, hdependency, hat⟩ :=
        (hmerges.present key name).mp (Option.isSome_of_mem hfind)
      refine ⟨?_, ⟨dependency, hdependency, hat⟩, hmerges.req key name merged hfind,
        hmerges.defaults key name merged hfind, hmerges.features key name merged hfind⟩
      have hexternal := of_decide_eq_true (List.mem_filter.mp hdependency).2
      rw [← hat.2]
      exact hexternal.2

/-- A required dependency with default features. -/
def plainDependency (name : String) (kind : Option String) : Dependency where
  name := name
  req := "^2"
  kind := kind
  optional := .Required
  usesDefaultFeatures := .On
  features := []
  target := none
  rename := none

def corePackage : Package where
  name := "core"
  manifestPath := ⟨"/tsrs/core/Cargo.toml"⟩
  dependencies := [plainDependency "parser" none, plainDependency "libc" (some "build"),
    plainDependency "bench" (some "dev")]

/-- Needs the features of `libc` that `core` does not name. -/
def parserPackage : Package where
  name := "parser"
  manifestPath := ⟨"/tsrs/parser/Cargo.toml"⟩
  dependencies := [plainDependency "core" none,
    { plainDependency "libc" (some "build") with
      usesDefaultFeatures := .Off
      features := ["extra_traits"] },
    plainDependency "tempfile" (some "dev")]

def benchPackage : Package where
  name := "bench"
  manifestPath := ⟨"/tsrs/bench/Cargo.toml"⟩
  dependencies := [plainDependency "parser" none]

def parserWorkspace : Metadata := ⟨[benchPackage, corePackage, parserPackage]⟩

/-- What the parser needs, the two packages need of each other. -/
theorem needs_parserWorkspace {a b : String} (h : parserWorkspace.Needs a b)
    (ha : a = "core" ∨ a = "parser") : b = "core" ∨ b = "parser" := by
  obtain ⟨package, hpackage, rfl, ⟨dependency, hdependency, hkind, rfl⟩, other, hother, hname⟩ := h
  simp only [parserWorkspace, List.mem_cons, List.not_mem_nil, or_false] at hpackage hother
  rcases hpackage with rfl | rfl | rfl
  · exact absurd ha (by decide)
  · simp only [corePackage, List.mem_cons, List.not_mem_nil, or_false] at hdependency
    rcases hdependency with rfl | rfl | rfl
    · exact Or.inr rfl
    · rcases hother with rfl | rfl | rfl <;> exact absurd hname (by decide)
    · exact absurd rfl hkind
  · simp only [parserPackage, List.mem_cons, List.not_mem_nil, or_false] at hdependency
    rcases hdependency with rfl | rfl | rfl
    · exact Or.inl rfl
    · rcases hother with rfl | rfl | rfl <;> exact absurd hname (by decide)
    · exact absurd rfl hkind

theorem reachable_parserWorkspace {name : String}
    (h : parserWorkspace.Reachable ["parser"] name) : name = "core" ∨ name = "parser" := by
  obtain ⟨root, hroot, hway⟩ := h
  rw [List.mem_singleton.mp hroot] at hway
  induction hway with
  | refl => exact Or.inr rfl
  | tail _ hstep ih => exact needs_parserWorkspace hstep ih

/-- Two packages that need each other, and one that only tests need. What they declare outside the
    bundle is one dependency, with the features of both. -/
theorem cyclic_closure : ∃ packages sections,
    parserWorkspace.closure ["parser"] = .ok (.ok packages) ∧
      (∀ package, package ∈ packages ↔ package = corePackage ∨ package = parserPackage) ∧
      merge packages {"core", "parser"} = .ok sections ∧
      find sections ⟨none, .Build⟩ "libc" = some ⟨"2", .On, {"extra_traits"}⟩ ∧
      ∀ key, find sections key "tempfile" = none ∧ find sections key "core" = none := by
  have hspec := closure_and_merge (show (parserWorkspace.packages.map Package.name).Nodup by decide)
    ["parser"]
  obtain ⟨packages, hclosure⟩ := hspec.2.1.mpr (by decide)
  obtain ⟨hsorted, hmem, hmerge⟩ := hspec.2.2 packages hclosure
  have hpackages : ∀ package, package ∈ packages ↔
      package = corePackage ∨ package = parserPackage := by
    intro package
    rw [hmem]
    constructor
    · rintro ⟨hpackage, hreach⟩
      have hname := reachable_parserWorkspace hreach
      simp only [parserWorkspace, List.mem_cons, List.not_mem_nil, or_false] at hpackage
      rcases hpackage with rfl | hcase
      · exact absurd hname (by decide)
      · exact hcase
    · rintro (rfl | rfl)
      · refine ⟨by decide, "parser", List.mem_singleton_self _, Relation.ReflTransGen.single ?_⟩
        exact ⟨parserPackage, by decide, rfl, ⟨plainDependency "core" none, by decide, by decide,
          rfl⟩, corePackage, by decide, rfl⟩
      · exact ⟨by decide, "parser", List.mem_singleton_self _, Relation.ReflTransGen.refl⟩
  -- the merge does not depend on the order, so the two packages may stand in any
  have hperm : [parserPackage, corePackage].Perm packages := by
    have hnodup : packages.Nodup := List.Nodup.of_map Package.name (hsorted.imp ne_of_lt)
    refine (List.perm_ext_iff_of_nodup (by decide) hnodup).mpr fun package => ?_
    rw [hpackages, List.mem_pair, or_comm]
  obtain ⟨hsame, hsections⟩ := hmerge {"core", "parser"} _ hperm
  obtain ⟨sections, hmerged, hlibc⟩ : ∃ sections,
      merge [parserPackage, corePackage] {"core", "parser"} = .ok sections ∧
        find sections ⟨none, .Build⟩ "libc" = some ⟨"2", .On, {"extra_traits"}⟩ :=
    ⟨_, rfl, by decide⟩
  refine ⟨packages, sections, hclosure, hpackages, (hsame sections).mp hmerged, hlibc,
    fun key => ⟨?_, ?_⟩⟩
  · cases hfind : find sections key "tempfile" with
    | none => rfl
    | some merged =>
      have hentry := hsections sections ((hsame sections).mp hmerged) key "tempfile"
      rw [hfind] at hentry
      obtain ⟨-, ⟨dependency, hdependency, -, hname⟩, -⟩ := hentry
      obtain ⟨hdeclared, hkept⟩ := List.mem_filter.mp hdependency
      obtain ⟨package, hpackage, hdeclared⟩ := List.mem_flatMap.mp hdeclared
      have honly : ∀ package ∈ [corePackage, parserPackage], ∀ dependency ∈ package.dependencies,
          dependency.name = "tempfile" → dependency.kind = some "dev" := by decide
      exact absurd (honly package (List.mem_pair.mpr ((hpackages package).mp hpackage)) dependency
        hdeclared hname) (of_decide_eq_true hkept).1
  · cases hfind : find sections key "core" with
    | none => rfl
    | some merged =>
      have hentry := hsections sections ((hsame sections).mp hmerged) key "core"
      rw [hfind] at hentry
      exact absurd (by decide) hentry.1

end Bundle

end Stiles
