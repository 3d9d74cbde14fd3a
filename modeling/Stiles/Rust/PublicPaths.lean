import Stiles.General.BreadthFirst

/-
  The public paths to an item through the crates that expose it (`provider.rs` of `stiles-rust`).

  What rust-analyzer knows of crates and modules is the parameter `Database`. A `HashMap` is a
  `Finmap`.

  * `mem_steps`: the walk takes the steps that an import map offers and does not hide.
  * `leadsTo_variant_iff`: the paths to a variant go through its enum.
  * `mem_candidates`: the paths of a crate to an item, by the modules that expose it.
  * `publicPaths_forall`: the loop over the dependencies gives one shortest path for each that
    exposes the item.
  * `public_paths_shortest`: the modules that are walked, and the paths to every item.
-/

namespace Stiles

/-! ## rust-analyzer -/

/-- What definitions, crates and modules are known by. -/
structure Hir where
  Crate : Type
  Module : Type
  Enum : Type
  Variant : Type
  /-- A function, a struct, a union, a constant, a static, a trait, an alias, a macro or a builtin. -/
  Other : Type
  Name : Type
  /-- An item in the key of an import map. -/
  Key : Type
  [crateEq : DecidableEq Crate]
  [moduleEq : DecidableEq Module]
  [nameEq : DecidableEq Name]

attribute [instance] Hir.crateEq Hir.moduleEq Hir.nameEq

inductive ModuleDef (hir : Hir) where
  | Module (module : hir.Module)
  | Enum (id : hir.Enum)
  | EnumVariant (variant : hir.Variant)
  | Other (id : hir.Other)

/-- What a name stands for in a module: an item or something else. -/
inductive ScopeDef (hir : Hir) where
  | ModuleDef (definition : ModuleDef hir)
  | Other

structure ImportInfo (hir : Hir) where
  name : hir.Name
  container : hir.Module
  isDocHidden : Bool

structure CrateDependency (hir : Hir) where
  krate : hir.Crate
  name : hir.Name

structure Database (hir : Hir) where
  krate : hir.Module → hir.Crate
  rootModule : hir.Crate → hir.Module
  dependencies : hir.Crate → List (CrateDependency hir)
  transitiveReverseDependencies : hir.Crate → List hir.Crate
  /-- The names of a module that another module can see. -/
  scope : hir.Module → hir.Module → List (hir.Name × ScopeDef hir)
  /-- The modules that stand in some scope. There are finitely many. -/
  modules : Finset hir.Module
  scope_modules : ∀ module visibleFrom name child,
    (name, .ModuleDef (.Module child)) ∈ scope module visibleFrom → child ∈ modules
  moduleOf : ModuleDef hir → Option hir.Module
  isAssocItem : ModuleDef hir → Bool
  parentEnum : hir.Variant → hir.Enum
  variantName : hir.Variant → hir.Name
  /-- `ItemInNs::from(def).try_into()`. -/
  itemInNs : ModuleDef hir → Option hir.Key
  /-- `ImportMap::of(db, krate).import_info_for(key)`. -/
  importInfoFor : hir.Crate → hir.Key → Option (List (ImportInfo hir))
  /-- A name in the edition of the file. -/
  display : hir.Name → String

namespace Database

variable {hir : Hir} (db : Database hir)

/-! ## Modules -/

/-- The import map of `krate` offers `child` as `name` of `module`. -/
def offers (krate : hir.Crate) (module : hir.Module) (name : hir.Name) (child : hir.Module) : Bool :=
  match db.itemInNs (.Module child) with
  | none => false
  | some key =>
    match db.importInfoFor krate key with
    | none => false
    | some infos => infos.any fun info =>
        info.container = module && info.name = name && !info.isDocHidden

/-- The modules that the walk enters from a module: what `visibleFrom` sees and `krate` offers. -/
def steps (visibleFrom : hir.Module) (krate : hir.Crate) (module : hir.Module) :
    List (String × hir.Module) :=
  (db.scope module visibleFrom).filterMap fun entry =>
    match entry.2 with
    | .ModuleDef (.Module child) =>
      if db.offers krate module entry.1 child then some (db.display entry.1, child) else none
    | _ => none

variable {db} in
/-- An offer stands in the import map, under the name and in the module, and is not hidden. -/
theorem offers_iff {krate : hir.Crate} {module : hir.Module} {name : hir.Name}
    {child : hir.Module} : db.offers krate module name child = true ↔
      ∃ key infos, db.itemInNs (.Module child) = some key ∧
        db.importInfoFor krate key = some infos ∧
        ∃ info ∈ infos, info.container = module ∧ info.name = name ∧ info.isDocHidden = false := by
  unfold offers
  cases db.itemInNs (.Module child) with
  | none => exact iff_of_false Bool.false_ne_true fun ⟨_, _, h, _⟩ => by cases h
  | some key =>
    dsimp only
    cases hinfos : db.importInfoFor krate key with
    | none =>
      refine iff_of_false Bool.false_ne_true fun ⟨_, _, hkey, h, _⟩ => ?_
      rw [← Option.some.inj hkey, hinfos] at h
      cases h
    | some infos =>
      dsimp only
      rw [List.any_eq_true]
      constructor
      · rintro ⟨info, hinfo, hoffer⟩
        simp only [Bool.and_eq_true, decide_eq_true_eq, Bool.not_eq_true'] at hoffer
        exact ⟨key, infos, rfl, hinfos, info, hinfo, hoffer.1.1, hoffer.1.2, hoffer.2⟩
      · rintro ⟨key', infos', hkey, hinfos', info, hinfo, hcontainer, hname, hshown⟩
        rw [← Option.some.inj hkey, hinfos] at hinfos'
        cases hinfos'
        exact ⟨info, hinfo, by simp [hcontainer, hname, hshown]⟩

variable {db} in
/-- A step of the walk: a module in the scope, offered under its name. Steps that are hidden only are
    left out. -/
theorem mem_steps {visibleFrom : hir.Module} {krate : hir.Crate} {module : hir.Module}
    {step : String × hir.Module} : step ∈ db.steps visibleFrom krate module ↔
      ∃ name, (name, .ModuleDef (.Module step.2)) ∈ db.scope module visibleFrom ∧
        step.1 = db.display name ∧ db.offers krate module name step.2 = true := by
  unfold steps
  rw [List.mem_filterMap]
  constructor
  · rintro ⟨⟨name, definition⟩, hentry, hsome⟩
    dsimp only at hsome
    split at hsome
    · rename_i child
      split at hsome
      · rename_i hoffered
        obtain rfl := Option.some.inj hsome
        exact ⟨name, hentry, rfl, hoffered⟩
      · cases hsome
    · cases hsome
  · rintro ⟨name, hentry, hlabel, hoffered⟩
    refine ⟨_, hentry, ?_⟩
    dsimp only
    rw [if_pos hoffered, ← hlabel]

theorem steps_modules (visibleFrom : hir.Module) (krate : hir.Crate) (module : hir.Module) :
    ∀ step ∈ db.steps visibleFrom krate module, step.2 ∈ db.modules := by
  intro step hstep
  obtain ⟨name, hentry, -⟩ := mem_steps.mp hstep
  exact db.scope_modules _ _ _ _ hentry

/-- The modules of `krate` with the edges that are offered. -/
def moduleGraph (visibleFrom : hir.Module) (krate : hir.Crate) :
    LabelledGraph hir.Module String where
  nodes := db.modules
  edges := db.steps visibleFrom krate
  closed := db.steps_modules visibleFrom krate

/-- The public path from the root of `krate` to each module. -/
def publicModulePaths (visibleFrom : hir.Module) (krate : hir.Crate) :
    LabelledGraph.Paths hir.Module String :=
  (db.moduleGraph visibleFrom krate).search (db.rootModule krate)

/-- The public module paths of the dependencies that a file has asked about. -/
structure ModulePaths (hir : Hir) where
  byCrate : Finmap fun _ : hir.Crate => LabelledGraph.Paths hir.Module String

def ModulePaths.default : ModulePaths hir where
  byCrate := ∅

/-- `ModulePaths::of`: a dependency is walked once. -/
def ModulePaths.of (cache : ModulePaths hir) (visibleFrom : hir.Module) (krate : hir.Crate) :
    LabelledGraph.Paths hir.Module String × ModulePaths hir :=
  match cache.byCrate.lookup krate with
  | some paths => (paths, cache)
  | none =>
    let paths := db.publicModulePaths visibleFrom krate
    (paths, { byCrate := cache.byCrate.insert krate paths })

/-! ## Items -/

structure PublicPath where
  krate : String
  segments : List String
deriving DecidableEq, Repr

def definingCrate (definition : ModuleDef hir) : Option hir.Crate :=
  match definition with
  | .Module module => some (db.krate module)
  | other => (db.moduleOf other).map db.krate

/-- The item whose path is looked for: the enum of a variant. -/
def itemOf : ModuleDef hir → ModuleDef hir
  | .EnumVariant variant => .Enum (db.parentEnum variant)
  | definition => definition

/-- What follows the path of the item. -/
def suffixOf : ModuleDef hir → List String
  | .EnumVariant variant => [db.display (db.variantName variant)]
  | _ => []

/-- The paths to an item through the modules that expose it. -/
def candidates (modules : LabelledGraph.Paths hir.Module String) (infos : List (ImportInfo hir)) :
    List (List String) :=
  (infos.filter fun info => !info.isDocHidden).filterMap fun info =>
    (modules.lookup info.container).map fun segments => segments ++ [db.display info.name]

/-- A path is before another one if it is shorter, or as long and before it in the order of
    texts. -/
def before (left right : List String) : Bool :=
  left.length < right.length || (left.length = right.length && left < right)

/-- `min_by`: the first of the least paths. -/
def shortest : List (List String) → Option (List String)
  | [] => none
  | first :: rest =>
    some (rest.foldl (fun best path => if before path best then path else best) first)

/-- The loop over the dependencies. -/
def exposedBy (visibleFrom : hir.Module) (defining : hir.Crate) (key : hir.Key)
    (suffix : List String) : List (CrateDependency hir) → ModulePaths hir →
      List PublicPath × ModulePaths hir
  | [], cache => ([], cache)
  | dependency :: rest, cache =>
    if dependency.krate = defining ∨
        dependency.krate ∉ db.transitiveReverseDependencies defining then
      exposedBy visibleFrom defining key suffix rest cache
    else
      match db.importInfoFor dependency.krate key with
      | none => exposedBy visibleFrom defining key suffix rest cache
      | some infos =>
        let modules := ModulePaths.of db cache visibleFrom dependency.krate
        match shortest (db.candidates modules.1 infos) with
        | none => exposedBy visibleFrom defining key suffix rest modules.2
        | some segments =>
          let later := exposedBy visibleFrom defining key suffix rest modules.2
          ({ krate := db.display dependency.name, segments := segments ++ suffix } :: later.1,
            later.2)

def publicPaths (visibleFrom : hir.Module) (cache : ModulePaths hir)
    (definition : ModuleDef hir) : List PublicPath × ModulePaths hir :=
  if db.isAssocItem definition then ([], cache)
  else
    match db.definingCrate (db.itemOf definition) with
    | none => ([], cache)
    | some defining =>
      if defining = db.krate visibleFrom then ([], cache)
      else
        match db.itemInNs (db.itemOf definition) with
        | none => ([], cache)
        | some key =>
          db.exposedBy visibleFrom defining key (db.suffixOf definition)
            (db.dependencies (db.krate visibleFrom)) cache

/-! ## What is public -/

/-- A public path of `krate` to an item: through offered modules to one that exposes the item, and
    for a variant on through its enum. No path names an associated item. -/
def LeadsTo (visibleFrom : hir.Module) (krate : hir.Crate) (definition : ModuleDef hir)
    (segments : List String) : Prop :=
  db.isAssocItem definition = false ∧ ∃ labels key infos, ∃ info ∈ infos,
    db.itemInNs (db.itemOf definition) = some key ∧ db.importInfoFor krate key = some infos ∧
      info.isDocHidden = false ∧
      (db.moduleGraph visibleFrom krate).Leads (db.rootModule krate) labels info.container ∧
      segments = labels ++ [db.display info.name] ++ db.suffixOf definition

/-- An import map lists what its crate defines and what the crates that it depends on define. -/
def ListsDependencies : Prop :=
  ∀ krate definition key infos defining, db.itemInNs definition = some key →
    db.importInfoFor krate key = some infos → db.definingCrate definition = some defining →
      krate = defining ∨ krate ∈ db.transitiveReverseDependencies defining

/-- No crate depends on itself, directly or through others. -/
def Acyclic : Prop :=
  ∀ krate, ∀ dependency ∈ db.dependencies krate, dependency.krate ≠ krate ∧
    dependency.krate ∉ db.transitiveReverseDependencies krate

/-- The cache holds what a walk gives. -/
def ModulePaths.Valid (visibleFrom : hir.Module) (cache : ModulePaths hir) : Prop :=
  ∀ krate paths, Finmap.lookup krate cache.byCrate = some paths →
    paths = db.publicModulePaths visibleFrom krate

variable {db}

/-- The public paths to a variant are those to its enum, with its name behind. -/
theorem leadsTo_variant_iff {visibleFrom : hir.Module} {krate : hir.Crate} {variant : hir.Variant}
    {segments : List String} (hassoc : db.isAssocItem (.EnumVariant variant) = false)
    (henum : db.isAssocItem (.Enum (db.parentEnum variant)) = false) :
    db.LeadsTo visibleFrom krate (.EnumVariant variant) segments ↔ ∃ front,
      db.LeadsTo visibleFrom krate (.Enum (db.parentEnum variant)) front ∧
        segments = front ++ [db.display (db.variantName variant)] := by
  constructor
  · rintro ⟨-, labels, key, infos, info, hinfo, hkey, hinfos, hshown, hleads, rfl⟩
    exact ⟨labels ++ [db.display info.name], ⟨henum, labels, key, infos, info, hinfo, hkey, hinfos,
      hshown, hleads, (List.append_nil _).symm⟩, rfl⟩
  · rintro ⟨front, ⟨-, labels, key, infos, info, hinfo, hkey, hinfos, hshown, hleads, hfront⟩, rfl⟩
    have hplain : front = labels ++ [db.display info.name] := hfront.trans (List.append_nil _)
    exact ⟨hassoc, labels, key, infos, info, hinfo, hkey, hinfos, hshown, hleads,
      congrArg (· ++ [db.display (db.variantName variant)]) hplain⟩

theorem ModulePaths.valid_default (visibleFrom : hir.Module) :
    ModulePaths.default.Valid db visibleFrom := by
  intro krate paths h
  rw [ModulePaths.default, Finmap.lookup_empty] at h
  cases h

theorem ModulePaths.of_spec {visibleFrom : hir.Module} {cache : ModulePaths hir}
    (h : cache.Valid db visibleFrom) (krate : hir.Crate) :
    (ModulePaths.of db cache visibleFrom krate).1 = db.publicModulePaths visibleFrom krate ∧
      (ModulePaths.of db cache visibleFrom krate).2.Valid db visibleFrom := by
  unfold ModulePaths.of
  split
  · rename_i paths hlookup
    exact ⟨h krate paths hlookup, h⟩
  · refine ⟨rfl, fun other paths hlookup => ?_⟩
    by_cases hsame : other = krate
    · rw [hsame, Finmap.lookup_insert] at hlookup
      rw [hsame]
      exact (Option.some.inj hlookup).symm
    · rw [Finmap.lookup_insert_of_ne _ hsame] at hlookup
      exact h other paths hlookup

/-! ## The shortest candidate -/

theorem foldl_shortest (rest : List (List String)) (first : List String) :
    let best := rest.foldl (fun best path => if before path best then path else best) first
    best ∈ first :: rest ∧ ∀ path ∈ first :: rest, best.length ≤ path.length := by
  induction rest generalizing first with
  | nil =>
    refine ⟨List.mem_cons_self, fun path hpath => ?_⟩
    rw [List.mem_singleton.mp hpath]
    exact le_rfl
  | cons second rest ih =>
    have hbetter : (if before second first then second else first).length ≤ first.length ∧
        (if before second first then second else first).length ≤ second.length := by
      unfold before
      split
      · rename_i hbefore
        simp only [Bool.or_eq_true, Bool.and_eq_true, decide_eq_true_eq] at hbefore
        exact ⟨by omega, le_rfl⟩
      · rename_i hbefore
        simp only [Bool.or_eq_true, Bool.and_eq_true, decide_eq_true_eq, not_or] at hbefore
        exact ⟨le_rfl, by omega⟩
    obtain ⟨hmem, hleast⟩ := ih (if before second first then second else first)
    constructor
    · rcases List.mem_cons.mp hmem with hbest | hlater
      · rw [List.foldl_cons, hbest]
        split
        · exact List.mem_cons_of_mem _ List.mem_cons_self
        · exact List.mem_cons_self
      · exact List.mem_cons_of_mem _ (List.mem_cons_of_mem _ hlater)
    · have hhead := hleast _ List.mem_cons_self
      intro path hpath
      rcases List.mem_cons.mp hpath with rfl | hpath
      · exact hhead.trans hbetter.1
      · rcases List.mem_cons.mp hpath with rfl | hlater
        · exact hhead.trans hbetter.2
        · exact hleast path (List.mem_cons_of_mem _ hlater)

theorem shortest_spec {paths : List (List String)} {best : List String}
    (h : shortest paths = some best) :
    best ∈ paths ∧ ∀ path ∈ paths, best.length ≤ path.length := by
  cases paths with
  | nil => cases h
  | cons first rest =>
    obtain rfl := Option.some.inj h
    exact foldl_shortest rest first

theorem shortest_eq_none {paths : List (List String)} (h : shortest paths = none) : paths = [] := by
  cases paths with
  | nil => rfl
  | cons first rest => cases h

theorem mem_candidates {modules : LabelledGraph.Paths hir.Module String}
    {infos : List (ImportInfo hir)} {segments : List String} :
    segments ∈ db.candidates modules infos ↔ ∃ info ∈ infos, info.isDocHidden = false ∧
      ∃ path, Finmap.lookup info.container modules = some path ∧
        segments = path ++ [db.display info.name] := by
  unfold candidates
  rw [List.mem_filterMap]
  constructor
  · intro h
    obtain ⟨info, hinfo, hsegments⟩ := h
    obtain ⟨hmem, hshown⟩ := List.mem_filter.mp hinfo
    obtain ⟨path, hpath, rfl⟩ := Option.map_eq_some_iff.mp hsegments
    exact ⟨info, hmem, by simpa using hshown, path, hpath, rfl⟩
  · intro h
    obtain ⟨info, hmem, hshown, path, hpath, rfl⟩ := h
    refine ⟨info, List.mem_filter.mpr ⟨hmem, by simp [hshown]⟩, ?_⟩
    exact Option.map_eq_some_iff.mpr ⟨path, hpath, rfl⟩

/-- The best candidate, with the suffix, is a shortest public path of the crate. -/
theorem leadsTo_of_shortest {visibleFrom : hir.Module} {krate : hir.Crate}
    {definition : ModuleDef hir} {key : hir.Key} {infos : List (ImportInfo hir)}
    (hassoc : db.isAssocItem definition = false)
    (hkey : db.itemInNs (db.itemOf definition) = some key)
    (hinfos : db.importInfoFor krate key = some infos) {segments : List String}
    (h : shortest (db.candidates (db.publicModulePaths visibleFrom krate) infos) = some segments) :
    db.LeadsTo visibleFrom krate definition (segments ++ db.suffixOf definition) ∧
      ∀ other, db.LeadsTo visibleFrom krate definition other →
        (segments ++ db.suffixOf definition).length ≤ other.length := by
  have hwalk := LabelledGraph.search_spec (db.moduleGraph visibleFrom krate) (db.rootModule krate)
  obtain ⟨hmem, hleast⟩ := shortest_spec h
  obtain ⟨info, hinfo, hshown, path, hpath, rfl⟩ := mem_candidates.mp hmem
  constructor
  · exact ⟨hassoc, path, key, infos, info, hinfo, hkey, hinfos, hshown,
      ((hwalk info.container).2 path hpath).1, rfl⟩
  · intro other hother
    obtain ⟨_, labels, key', infos', info', hinfo', hkey', hinfos', hshown', hleads, rfl⟩ := hother
    obtain rfl := Option.some.inj (hkey.symm.trans hkey')
    obtain rfl := Option.some.inj (hinfos.symm.trans hinfos')
    obtain ⟨path', hpath'⟩ := (hwalk info'.container).1.mpr ⟨labels, hleads⟩
    have hshort := ((hwalk info'.container).2 path' hpath').2 labels hleads
    have hbest := hleast _ (mem_candidates.mpr ⟨info', hinfo', hshown', path', hpath', rfl⟩)
    simp only [List.length_append, List.length_singleton] at hbest ⊢
    omega

/-- Where no candidate is there, no public path is. -/
theorem not_leadsTo_of_none {visibleFrom : hir.Module} {krate : hir.Crate}
    {definition : ModuleDef hir} {key : hir.Key} {infos : List (ImportInfo hir)}
    (hkey : db.itemInNs (db.itemOf definition) = some key)
    (hinfos : db.importInfoFor krate key = some infos)
    (h : shortest (db.candidates (db.publicModulePaths visibleFrom krate) infos) = none)
    (segments : List String) : ¬db.LeadsTo visibleFrom krate definition segments := by
  intro hleadsTo
  obtain ⟨_, labels, key', infos', info, hinfo, hkey', hinfos', hshown, hleads, _⟩ := hleadsTo
  obtain rfl := Option.some.inj (hkey.symm.trans hkey')
  obtain rfl := Option.some.inj (hinfos.symm.trans hinfos')
  obtain ⟨path, hpath⟩ := (LabelledGraph.search_spec (db.moduleGraph visibleFrom krate)
    (db.rootModule krate) info.container).1.mpr ⟨labels, hleads⟩
  have hmem : path ++ [db.display info.name] ∈
      db.candidates (db.publicModulePaths visibleFrom krate) infos :=
    mem_candidates.mpr ⟨info, hinfo, hshown, path, hpath, rfl⟩
  rw [shortest_eq_none h] at hmem
  exact List.not_mem_nil hmem

/-! ## Every dependency -/

/-- A path through a dependency, under its name, that no other one is shorter than. -/
def IsShortest (db : Database hir) (visibleFrom : hir.Module) (definition : ModuleDef hir)
    (dependency : CrateDependency hir) (path : PublicPath) : Prop :=
  path.krate = db.display dependency.name ∧
    db.LeadsTo visibleFrom dependency.krate definition path.segments ∧
    ∀ other, db.LeadsTo visibleFrom dependency.krate definition other →
      path.segments.length ≤ other.length

/-- A crate other than the one that defines the item has a public path to it. -/
def Exposes (db : Database hir) (visibleFrom : hir.Module) (defining : hir.Crate)
    (definition : ModuleDef hir) (dependency : CrateDependency hir) : Prop :=
  dependency.krate ≠ defining ∧ ∃ segments,
    db.LeadsTo visibleFrom dependency.krate definition segments

/-- A crate that the loop passes over exposes nothing. -/
theorem not_exposes_of_skipped (hlists : db.ListsDependencies) {visibleFrom : hir.Module}
    {defining : hir.Crate} {definition : ModuleDef hir}
    (hdefining : db.definingCrate (db.itemOf definition) = some defining)
    {dependency : CrateDependency hir} (h : dependency.krate = defining ∨
      dependency.krate ∉ db.transitiveReverseDependencies defining) :
    ¬db.Exposes visibleFrom defining definition dependency := by
  intro hexposes
  obtain ⟨hother, _, _, _, key, infos, _, _, hkey, hinfos, _⟩ := hexposes
  rcases h with hsame | hnot
  · exact hother hsame
  · rcases hlists _ _ key infos defining hkey hinfos hdefining with hsame | hdepends
    · exact hother hsame
    · exact hnot hdepends

open scoped Classical in
/-- The loop gives one shortest path for each dependency that exposes the item. -/
theorem exposedBy_forall (hlists : db.ListsDependencies) {visibleFrom : hir.Module}
    {defining : hir.Crate} {definition : ModuleDef hir} {key : hir.Key}
    (hassoc : db.isAssocItem definition = false)
    (hdefining : db.definingCrate (db.itemOf definition) = some defining)
    (hkey : db.itemInNs (db.itemOf definition) = some key)
    (dependencies : List (CrateDependency hir)) {cache : ModulePaths hir}
    (hcache : cache.Valid db visibleFrom) :
    List.Forall₂ (db.IsShortest visibleFrom definition)
      (dependencies.filter fun dependency =>
        db.Exposes visibleFrom defining definition dependency)
      (db.exposedBy visibleFrom defining key (db.suffixOf definition) dependencies cache).1 := by
  induction dependencies generalizing cache with
  | nil => exact .nil
  | cons dependency rest ih =>
    have hpass : ¬db.Exposes visibleFrom defining definition dependency →
        (dependency :: rest).filter (fun dependency =>
          db.Exposes visibleFrom defining definition dependency)
          = rest.filter fun dependency => db.Exposes visibleFrom defining definition dependency :=
      fun hnot => List.filter_cons_of_neg (by simpa using hnot)
    unfold exposedBy
    by_cases hskip : dependency.krate = defining ∨
        dependency.krate ∉ db.transitiveReverseDependencies defining
    · rw [if_pos hskip, hpass (not_exposes_of_skipped hlists hdefining hskip)]
      exact ih hcache
    · rw [if_neg hskip]
      have hother : dependency.krate ≠ defining := (not_or.mp hskip).1
      obtain ⟨hwalked, hlater⟩ := ModulePaths.of_spec hcache dependency.krate
      cases hinfos : db.importInfoFor dependency.krate key with
      | none =>
        have hnot : ¬db.Exposes visibleFrom defining definition dependency := by
          intro hexposes
          obtain ⟨_, _, _, _, key', infos, _, _, hkey', hinfos', _⟩ := hexposes
          obtain rfl := Option.some.inj (hkey.symm.trans hkey')
          rw [hinfos] at hinfos'
          cases hinfos'
        rw [hpass hnot]
        exact ih hcache
      | some infos =>
        simp only [hwalked]
        cases hshortest : shortest
            (db.candidates (db.publicModulePaths visibleFrom dependency.krate) infos) with
        | none =>
          have hnot : ¬db.Exposes visibleFrom defining definition dependency := by
            intro hexposes
            obtain ⟨_, segments, hleads⟩ := hexposes
            exact not_leadsTo_of_none hkey hinfos hshortest segments hleads
          rw [hpass hnot]
          exact ih hlater
        | some segments =>
          obtain ⟨hleads, hleast⟩ := leadsTo_of_shortest hassoc hkey hinfos hshortest
          have hexposes : db.Exposes visibleFrom defining definition dependency :=
            ⟨hother, _, hleads⟩
          rw [List.filter_cons_of_pos (by simpa using hexposes)]
          exact .cons ⟨rfl, hleads, hleast⟩ (ih hlater)

/-- The cache stays what it is for, whatever is asked. -/
theorem exposedBy_valid {visibleFrom : hir.Module} {defining : hir.Crate} {key : hir.Key}
    {suffix : List String} (dependencies : List (CrateDependency hir)) {cache : ModulePaths hir}
    (hcache : cache.Valid db visibleFrom) :
    (db.exposedBy visibleFrom defining key suffix dependencies cache).2.Valid db visibleFrom := by
  induction dependencies generalizing cache with
  | nil => exact hcache
  | cons dependency rest ih =>
    have hlater := (ModulePaths.of_spec hcache dependency.krate).2
    unfold exposedBy
    split
    · exact ih hcache
    · split
      · exact ih hcache
      · simp only
        split
        · exact ih hlater
        · exact ih hlater

theorem publicPaths_valid {visibleFrom : hir.Module} {cache : ModulePaths hir}
    (hcache : cache.Valid db visibleFrom) (definition : ModuleDef hir) :
    (db.publicPaths visibleFrom cache definition).2.Valid db visibleFrom := by
  unfold publicPaths
  split
  · exact hcache
  · split
    · exact hcache
    · split
      · exact hcache
      · split
        · exact hcache
        · exact exposedBy_valid _ hcache

/-- What was looked up before does not change an answer. -/
theorem exposedBy_of_valid {visibleFrom : hir.Module} {defining : hir.Crate} {key : hir.Key}
    {suffix : List String} (dependencies : List (CrateDependency hir))
    {cache other : ModulePaths hir} (hcache : cache.Valid db visibleFrom)
    (hother : other.Valid db visibleFrom) :
    (db.exposedBy visibleFrom defining key suffix dependencies cache).1 =
      (db.exposedBy visibleFrom defining key suffix dependencies other).1 := by
  induction dependencies generalizing cache other with
  | nil => rfl
  | cons dependency rest ih =>
    obtain ⟨hwalked, hlater⟩ := ModulePaths.of_spec hcache dependency.krate
    obtain ⟨hwalked', hlater'⟩ := ModulePaths.of_spec hother dependency.krate
    unfold exposedBy
    split
    · exact ih hcache hother
    · split
      · exact ih hcache hother
      · dsimp only
        rw [hwalked, hwalked']
        split
        · exact ih hlater hlater'
        · exact congrArg (List.cons _) (ih hlater hlater')

theorem publicPaths_of_valid {visibleFrom : hir.Module} {cache other : ModulePaths hir}
    (hcache : cache.Valid db visibleFrom) (hother : other.Valid db visibleFrom)
    (definition : ModuleDef hir) :
    (db.publicPaths visibleFrom cache definition).1 =
      (db.publicPaths visibleFrom other definition).1 := by
  unfold publicPaths
  split
  · rfl
  · split
    · rfl
    · split
      · rfl
      · split
        · rfl
        · exact exposedBy_of_valid _ hcache hother

open scoped Classical in
theorem publicPaths_forall (hlists : db.ListsDependencies) (hacyclic : db.Acyclic)
    {visibleFrom : hir.Module} {cache : ModulePaths hir} (hcache : cache.Valid db visibleFrom)
    {definition : ModuleDef hir} {defining : hir.Crate}
    (hdefining : db.definingCrate (db.itemOf definition) = some defining) :
    List.Forall₂ (db.IsShortest visibleFrom definition)
      ((db.dependencies (db.krate visibleFrom)).filter fun dependency =>
        db.Exposes visibleFrom defining definition dependency)
      (db.publicPaths visibleFrom cache definition).1 := by
  have hnone : (∀ dependency ∈ db.dependencies (db.krate visibleFrom),
      ¬db.Exposes visibleFrom defining definition dependency) →
      (db.dependencies (db.krate visibleFrom)).filter (fun dependency =>
        db.Exposes visibleFrom defining definition dependency) = [] := by
    intro hnot
    refine List.filter_eq_nil_iff.mpr fun dependency hmem => ?_
    simpa using hnot dependency hmem
  unfold publicPaths
  cases hassoc : db.isAssocItem definition with
  | true =>
    rw [if_pos rfl, hnone]
    · exact .nil
    · intro dependency _ hexposes
      obtain ⟨_, _, hitem, _⟩ := hexposes
      rw [hassoc] at hitem
      cases hitem
  | false =>
    rw [if_neg Bool.false_ne_true]
    simp only [hdefining]
    split
    · rename_i hcurrent
      rw [hnone]
      · exact .nil
      · intro dependency hmem hexposes
        obtain ⟨_, _, _, _, key, infos, _, _, hkey, hinfos, _⟩ := hexposes
        obtain ⟨hother, hnot⟩ := hacyclic _ dependency hmem
        rw [← hcurrent] at hother hnot
        exact (hlists _ _ key infos defining hkey hinfos hdefining).elim hother hnot
    · cases hkey : db.itemInNs (db.itemOf definition) with
      | none =>
        rw [hnone]
        · exact .nil
        · intro dependency _ hexposes
          obtain ⟨_, _, _, _, key, _, _, _, hkey', _⟩ := hexposes
          rw [hkey] at hkey'
          cases hkey'
      | some key => exact exposedBy_forall hlists hassoc hdefining hkey _ hcache

open scoped Classical in
/-- The walk of a crate gives a shortest path to each module that is reached over offered edges, and
    an item has one shortest public path through each other dependency that exposes it. -/
theorem public_paths_shortest (db : Database hir) (hlists : db.ListsDependencies)
    (hacyclic : db.Acyclic) (visibleFrom : hir.Module) :
    (∀ krate module,
      ((∃ path, Finmap.lookup module (db.publicModulePaths visibleFrom krate) = some path) ↔
        ∃ labels, (db.moduleGraph visibleFrom krate).Leads (db.rootModule krate) labels module) ∧
      ∀ path, Finmap.lookup module (db.publicModulePaths visibleFrom krate) = some path →
        (db.moduleGraph visibleFrom krate).Leads (db.rootModule krate) path module ∧
        ∀ labels, (db.moduleGraph visibleFrom krate).Leads (db.rootModule krate) labels module →
          path.length ≤ labels.length) ∧
    ∀ cache : ModulePaths hir, cache.Valid db visibleFrom → ∀ definition,
      (db.publicPaths visibleFrom cache definition).2.Valid db visibleFrom ∧
      ∀ defining, db.definingCrate (db.itemOf definition) = some defining →
        List.Forall₂ (db.IsShortest visibleFrom definition)
          ((db.dependencies (db.krate visibleFrom)).filter fun dependency =>
            db.Exposes visibleFrom defining definition dependency)
          (db.publicPaths visibleFrom cache definition).1 := by
  refine ⟨fun krate module => ?_, fun cache hcache definition => ⟨?_, ?_⟩⟩
  · exact LabelledGraph.search_spec (db.moduleGraph visibleFrom krate) (db.rootModule krate) module
  · exact publicPaths_valid hcache definition
  · intro defining hdefining
    exact publicPaths_forall hlists hacyclic hcache hdefining

/-! ## A facade -/

inductive FacadeCrate where
  | app
  | facade
  | base
deriving DecidableEq

inductive FacadeModule where
  | app
  | facade
  | inner
  | hidden
  | base
deriving DecidableEq

inductive FacadeKey where
  | module (id : FacadeModule)
  | size
  | thing

/-- `base` defines an enum with one variant, and another item. -/
def facadeHir : Hir where
  Crate := FacadeCrate
  Module := FacadeModule
  Enum := Unit
  Variant := Unit
  Other := Unit
  Name := String
  Key := FacadeKey

/-- `facade` hides a re-export of both items at its root and one of its modules, which re-exports
    them, and offers them in another module. -/
def facadeDatabase : Database facadeHir where
  krate
    | .app => FacadeCrate.app
    | .facade | .inner | .hidden => FacadeCrate.facade
    | .base => FacadeCrate.base
  rootModule
    | .app => FacadeModule.app
    | .facade => FacadeModule.facade
    | .base => FacadeModule.base
  dependencies
    | .app => [⟨FacadeCrate.facade, "facade"⟩, ⟨FacadeCrate.base, "base"⟩]
    | .facade => [⟨FacadeCrate.base, "base"⟩]
    | .base => []
  transitiveReverseDependencies
    | .app => [FacadeCrate.app]
    | .facade => [FacadeCrate.facade, FacadeCrate.app]
    | .base => [FacadeCrate.base, FacadeCrate.facade, FacadeCrate.app]
  scope module _ :=
    match module with
    | .facade =>
      [("hidden", .ModuleDef (.Module FacadeModule.hidden)),
       ("inner", .ModuleDef (.Module FacadeModule.inner)), ("Thing", .Other)]
    | _ => []
  modules := {FacadeModule.inner, FacadeModule.hidden}
  scope_modules := by
    intro module _ name child h
    cases module with
    | facade =>
      simp only [List.mem_cons, List.not_mem_nil, or_false] at h
      rcases h with h | h | h
      · cases h
        exact Finset.mem_insert_of_mem (Finset.mem_singleton_self _)
      · cases h
        exact Finset.mem_insert_self _ _
      · cases h
    | app => cases h
    | inner => cases h
    | hidden => cases h
    | base => cases h
  moduleOf _ := some FacadeModule.base
  isAssocItem _ := false
  parentEnum := id
  variantName _ := "Small"
  itemInNs
    | .Module module => some (.module module)
    | .Enum _ => some .size
    | .EnumVariant _ => none
    | .Other _ => some .thing
  importInfoFor
    | .facade, .module .inner => some [⟨"inner", FacadeModule.facade, false⟩]
    | .facade, .module .hidden => some [⟨"hidden", FacadeModule.facade, true⟩]
    | .facade, .size =>
      some [⟨"Size", FacadeModule.facade, true⟩, ⟨"Size", FacadeModule.hidden, false⟩,
        ⟨"Size", FacadeModule.inner, false⟩]
    | .facade, .thing =>
      some [⟨"Thing", FacadeModule.facade, true⟩, ⟨"Thing", FacadeModule.inner, false⟩]
    | _, _ => none
  display name := name

theorem facade_lists : facadeDatabase.ListsDependencies := by
  intro krate definition key infos defining hkey hinfos hdefining
  have hbase : ∀ {m : Option FacadeModule}, m = some FacadeModule.base →
      m.map facadeDatabase.krate = some defining →
      FacadeCrate.facade ∈ facadeDatabase.transitiveReverseDependencies defining := by
    rintro m rfl h
    rw [← Option.some.inj h]
    show FacadeCrate.facade ∈ [FacadeCrate.base, FacadeCrate.facade, FacadeCrate.app]
    decide
  cases krate with
  | app => cases hinfos
  | base => cases hinfos
  | facade =>
    cases definition with
    | Module module =>
      obtain rfl := Option.some.inj hkey
      cases module with
      | inner => exact Or.inl (Option.some.inj hdefining)
      | hidden => exact Or.inl (Option.some.inj hdefining)
      | app => cases hinfos
      | facade => cases hinfos
      | base => cases hinfos
    | Enum id => exact Or.inr (hbase rfl hdefining)
    | EnumVariant variant => cases hkey
    | Other _ => exact Or.inr (hbase rfl hdefining)

theorem facade_acyclic : facadeDatabase.Acyclic := by
  intro krate dependency hdependency
  cases krate with
  | app =>
    rcases List.mem_cons.mp hdependency with rfl | hlast
    · show FacadeCrate.facade ≠ FacadeCrate.app ∧ FacadeCrate.facade ∉ [FacadeCrate.app]
      decide
    · obtain rfl := List.mem_singleton.mp hlast
      show FacadeCrate.base ≠ FacadeCrate.app ∧ FacadeCrate.base ∉ [FacadeCrate.app]
      decide
  | facade =>
    obtain rfl := List.mem_singleton.mp hdependency
    show FacadeCrate.base ≠ FacadeCrate.facade ∧
      FacadeCrate.base ∉ [FacadeCrate.facade, FacadeCrate.app]
    decide
  | base => cases hdependency

/-- The variant is found through its enum in the module that is offered. The walk does not enter the
    hidden module. -/
theorem facade_path :
    (∃ path ∈ (facadeDatabase.publicPaths FacadeModule.app ModulePaths.default
        (.EnumVariant ())).1, path.krate = "facade" ∧
      ∃ front, path.segments = front ++ ["Small"] ∧ front.length ≤ 2) ∧
    ∀ path, Finmap.lookup FacadeModule.hidden
      (facadeDatabase.publicModulePaths FacadeModule.app FacadeCrate.facade) ≠ some path := by
  have hshortest := public_paths_shortest facadeDatabase facade_lists facade_acyclic
    FacadeModule.app
  constructor
  · have hleads : facadeDatabase.LeadsTo FacadeModule.app FacadeCrate.facade (.EnumVariant ())
        ["inner", "Size", "Small"] := by
      refine (leadsTo_variant_iff rfl rfl).mpr ⟨["inner", "Size"], ⟨rfl, ["inner"], .size, _,
        ⟨"Size", FacadeModule.inner, false⟩, ?_, rfl, rfl, rfl, ?_, rfl⟩, rfl⟩
      · exact List.mem_cons_of_mem _ (List.mem_cons_of_mem _ List.mem_cons_self)
      · exact LabelledGraph.Leads.step .start List.mem_cons_self
    have hpaths := (hshortest.2 ModulePaths.default (ModulePaths.valid_default _)
      (.EnumVariant ())).2 FacadeCrate.base rfl
    have hexposes : facadeDatabase.Exposes FacadeModule.app FacadeCrate.base (.EnumVariant ())
        ⟨FacadeCrate.facade, "facade"⟩ := by
      refine ⟨?_, _, hleads⟩
      show FacadeCrate.facade ≠ FacadeCrate.base
      decide
    have hdependencies : facadeDatabase.dependencies (facadeDatabase.krate FacadeModule.app)
        = [⟨FacadeCrate.facade, "facade"⟩, ⟨FacadeCrate.base, "base"⟩] := rfl
    rw [hdependencies, List.filter_cons_of_pos (by simpa using hexposes)] at hpaths
    obtain ⟨path, rest, ⟨hkrate, hpath, hleast⟩, _, hlist⟩ := List.forall₂_cons_left_iff.mp hpaths
    obtain ⟨front, -, hfront⟩ := (leadsTo_variant_iff rfl rfl).mp hpath
    refine ⟨path, hlist ▸ List.mem_cons_self, hkrate, front, hfront, ?_⟩
    have hlength := hleast _ hleads
    rw [hfront, List.length_append] at hlength
    exact Nat.le_of_succ_le_succ hlength
  · intro path hpath
    have hway := ((hshortest.1 FacadeCrate.facade FacadeModule.hidden).2 path hpath).1
    cases hway with
    | step _ edge =>
      obtain ⟨name, -, -, hoffered⟩ := mem_steps.mp edge
      obtain ⟨key, infos, hkey, hinfos, info, hinfo, -, -, hshown⟩ := offers_iff.mp hoffered
      cases hkey
      cases hinfos
      rw [List.mem_singleton.mp hinfo] at hshown
      cases hshown

end Database

end Stiles
