import Stiles.Discovery.Policies
import Stiles.General.Forest

/-
  Discovery below two directories of one project.

  A `Project` is a tree of entries. `Walks` is what is known of the walker: it goes over the entries
  below its root with its own rules and the filter, and does not enter what one of them refuses.

  * `runDirectory_files`: the files that are found below a directory.
  * `found_below`: what is found below an inner directory is what is found there from an outer one.
-/

namespace Stiles

namespace Discovery

/-! ## Projects -/

/-- The entries of a directory, and all entries below it. -/
structure Project where
  entries : Forest String FileType
  distinct : entries.Distinct
  plain : ∀ names type, entries.valueAt names = some type → ∀ name ∈ names, isPlain name = true
  parents : ∀ names name type, entries.valueAt (names ++ [name]) = some type →
    names = [] ∨ entries.valueAt names = some .Dir

/-- These names lead to a directory of the project. -/
def Project.IsDir (project : Project) (names : List String) : Prop :=
  names = [] ∨ project.entries.valueAt names = some .Dir

theorem Project.IsDir.inside {project : Project} {names : List String} (h : project.IsDir names) :
    ∃ inner, project.entries.inside names = some inner := by
  rcases h with rfl | hvalue
  · exact ⟨_, rfl⟩
  · exact Forest.inside_of_valueAt hvalue

theorem Project.IsDir.plain {project : Project} {names : List String} (h : project.IsDir names) :
    ∀ name ∈ names, isPlain name = true := by
  rcases h with rfl | hvalue
  · exact fun name hname => absurd hname List.not_mem_nil
  · exact project.plain names _ hvalue

/-- An entry stays out of a walk by the walker's own rules or by a configured pattern. -/
def refused (walker : Walker) (own : FilePath → FileType → Bool) (excludes : walker.Gitignore)
    (root : FilePath) (names : List String) (type : FileType) : Bool :=
  own (root.joinAll names) type || !admits walker excludes ⟨root.joinAll names, some type, none⟩

/-- The entries of a stream, without what was wrong with them. -/
def visited (stream : List (Except WalkError WalkEntry)) : List (FilePath × Option FileType) :=
  stream.filterMap fun
    | .error _ => none
    | .ok entry => some (entry.path, entry.fileType)

/-- The walker goes over the entries below its root that neither its own rules nor the filter
    refuses, and does not enter a refused directory. Its root is given whatever the rules say. -/
structure Walks (walker : Walker) (own : FilePath → FileType → Bool) (root : FilePath)
    (project : Project) : Prop where
  rooted : root.components ≠ []
  isFile : ∀ names, project.IsDir names → walker.isFile (root.joinAll names) = false
  walk : ∀ excludes names inner, project.IsDir names →
    project.entries.inside names = some inner →
    (visited (walker.walk (root.joinAll names) (admits walker excludes))).Perm
      ((root.joinAll names, some .Dir) ::
        (inner.visits (refused walker own excludes root) names).map fun entry =>
          (root.joinAll entry.1, some entry.2))

/-! ## Files -/

/-- A path has the extension of a language. -/
def supported (path : FilePath) : Bool :=
  (path.extension.bind Language.fromExtension).isSome

theorem sourceFile_eq (path root : FilePath) (entry : WalkEntry) : sourceFile path root entry
    = if entry.fileType = some .File ∧ supported entry.path then some (rebase path root entry.path)
      else none := by
  rw [sourceFile, supported]
  split
  · rename_i htype
    rw [htype]
    cases entry.path.extension with
    | none => simp
    | some extension =>
      rcases Option.eq_none_or_eq_some (Language.fromExtension extension) with hnone | hsome
      · simp [hnone]
      · obtain ⟨language, hlanguage⟩ := hsome
        simp [hlanguage]
  · rename_i htype
    rw [if_neg fun h => htype h.1]

theorem found_visited (path root : FilePath) (stream : List (Except WalkError WalkEntry)) :
    found path root stream = (visited stream).filterMap fun entry =>
      sourceFile path root ⟨entry.1, entry.2, none⟩ := by
  rw [found, visited, List.filterMap_filterMap]
  refine List.filterMap_congr fun result _ => ?_
  cases result with
  | error e => rfl
  | ok entry =>
    show sourceFile path root entry = sourceFile path root ⟨entry.path, entry.fileType, none⟩
    rw [sourceFile_eq, sourceFile_eq]

theorem filterMap_ite {α β : Type*} {f : α → Option β} {p : α → Bool} {g : α → β} {l : List α}
    (h : ∀ a ∈ l, f a = if p a then some (g a) else none) :
    l.filterMap f = (l.filter p).map g := by
  induction l with
  | nil => rfl
  | cons a l ih =>
    obtain ⟨hfirst, hrest⟩ := List.forall_mem_cons.mp h
    cases hp : p a with
    | true =>
      rw [List.filterMap_cons_some (hfirst.trans (if_pos hp)), List.filter_cons_of_pos hp,
        List.map_cons, ih hrest]
    | false =>
      have hskip : ¬p a = true := by simp [hp]
      rw [List.filterMap_cons_none (hfirst.trans (if_neg hskip)), List.filter_cons_of_neg hskip,
        ih hrest]

section

variable {walker : Walker} {own : FilePath → FileType → Bool} {root : FilePath}
  {project : Project} {excludes : walker.Gitignore}

/-- The names, below the directory `names`, of the files that a walk there gives. -/
def filesBelow (walker : Walker) (own : FilePath → FileType → Bool) (root : FilePath)
    (excludes : walker.Gitignore) (names : List String) (inner : Forest String FileType) :
    List (List String) :=
  ((inner.visits (refused walker own excludes root) names).filter fun entry =>
    entry.2 = .File ∧ supported (root.joinAll entry.1)).map fun entry => entry.1.drop names.length

theorem mem_filesBelow {names rel : List String} {inner : Forest String FileType}
    (hdistinct : inner.Distinct) : rel ∈ filesBelow walker own root excludes names inner ↔
      inner.valueAt rel = some .File ∧ supported (root.joinAll (names ++ rel)) = true ∧
        Forest.Open (refused walker own excludes root) names inner rel := by
  rw [filesBelow, List.mem_map]
  constructor
  · intro h
    obtain ⟨⟨full, type⟩, hmem, rfl⟩ := h
    obtain ⟨hvisit, hfile⟩ := List.mem_filter.mp hmem
    obtain ⟨tail, rfl, hvalue, hopen⟩ := (Forest.mem_visits hdistinct).mp hvisit
    obtain ⟨htype, hsupported⟩ := of_decide_eq_true hfile
    dsimp only at htype hsupported ⊢
    rw [List.drop_left]
    exact ⟨htype ▸ hvalue, hsupported, hopen⟩
  · intro h
    obtain ⟨hvalue, hsupported, hopen⟩ := h
    refine ⟨(names ++ rel, .File), List.mem_filter.mpr ⟨?_, ?_⟩, List.drop_left⟩
    · exact (Forest.mem_visits hdistinct).mpr ⟨rel, rfl, hvalue, hopen⟩
    · exact decide_eq_true ⟨rfl, hsupported⟩

theorem nodup_filesBelow {names : List String} {inner : Forest String FileType}
    (hdistinct : inner.Distinct) :
    (filesBelow walker own root excludes names inner).Nodup := by
  have hvisits : ((inner.visits (refused walker own excludes root) names).map Prod.fst).Nodup :=
    Forest.nodup_visits hdistinct names
  refine (List.Nodup.of_map (fun rel => names ++ rel) ?_)
  have hsame : (filesBelow walker own root excludes names inner).map (fun rel => names ++ rel)
      = ((inner.visits (refused walker own excludes root) names).filter fun entry =>
          entry.2 = .File ∧ supported (root.joinAll entry.1)).map Prod.fst := by
    rw [filesBelow, List.map_map]
    refine List.map_congr_left fun entry hentry => ?_
    obtain ⟨rel, hrel, _⟩ := (Forest.mem_visits hdistinct).mp (List.mem_filter.mp hentry).1
    show names ++ entry.1.drop names.length = entry.1
    rw [hrel, List.drop_left]
  rw [hsame]
  exact hvisits.sublist (List.filter_sublist.map Prod.fst)

/-- The paths that a run gives to the files below a directory. -/
theorem found_filesBelow {path : FilePath} (hwalks : Walks walker own root project)
    {names : List String} (hdir : project.IsDir names) {inner : Forest String FileType}
    (hinner : project.entries.inside names = some inner) :
    (found path (root.joinAll names)
        (walker.walk (root.joinAll names) (admits walker excludes))).Perm
      ((filesBelow walker own root excludes names inner).map fun rel =>
        path.join (FilePath.ofNames rel)) := by
  rw [found_visited]
  refine ((hwalks.walk excludes names inner hdir hinner).filterMap _).trans ?_
  have hroot :
      sourceFile path (root.joinAll names) ⟨root.joinAll names, some .Dir, none⟩ = none := by
    rw [sourceFile_eq, if_neg]
    simp
  simp only [List.filterMap_cons, hroot, List.filterMap_map]
  have heach : ∀ entry ∈ inner.visits (refused walker own excludes root) names,
      sourceFile path (root.joinAll names) ⟨root.joinAll entry.1, some entry.2, none⟩
        = if decide (entry.2 = .File ∧ supported (root.joinAll entry.1)) = true
          then some (path.join (FilePath.ofNames (entry.1.drop names.length))) else none := by
    intro entry hentry
    obtain ⟨rel, hrel, hvalue, _⟩ :=
      (Forest.mem_visits (project.distinct.inside hinner)).mp hentry
    have hne : rel ≠ [] := Forest.ne_nil_of_valueAt hvalue
    have hplain : ∀ name ∈ rel, isPlain name = true := by
      intro name hname
      refine project.plain (names ++ rel) entry.2 ?_ name (List.mem_append_right _ hname)
      rw [Forest.valueAt_append hinner hne, hvalue]
    have hbase : (root.joinAll names).components ≠ [] := by
      rw [FilePath.components_joinAll root hdir.plain]
      exact List.append_ne_nil_of_left_ne_nil hwalks.rooted _
    have hrebase : rebase path (root.joinAll names) (root.joinAll entry.1)
        = path.join (FilePath.ofNames (entry.1.drop names.length)) := by
      rw [rebase, hrel, List.drop_left, FilePath.joinAll_append,
        FilePath.stripPrefix_joinAll hbase hplain hne]
      rfl
    rw [sourceFile_eq]
    dsimp only
    rw [hrebase]
    simp only [Option.some.injEq, decide_eq_true_eq]
  have hall := filterMap_ite heach
  rw [filesBelow, List.map_map]
  exact List.Perm.of_eq hall

/-- The files of a run over a directory of the project. -/
theorem runDirectory_files {path : FilePath} {onError : WalkErrorPolicy} {discovery : Discovery}
    (hwalks : Walks walker own root project) {names : List String} (hdir : project.IsDir names)
    {inner : Forest String FileType} (hinner : project.entries.inside names = some inner)
    (h : runDirectory walker excludes path (root.joinAll names) onError = .ok discovery)
    {files : List (List String)}
    (hfiles : (filesBelow walker own root excludes names inner).Perm files)
    (hsorted : (files.map FilePath.normals).Pairwise (· < ·)) :
    discovery.files = files.map fun rel => path.join (FilePath.ofNames rel) := by
  have hdiscovered : discovery.files = Keyed.sortBy FilePath.components (found path
      (root.joinAll names) (walker.walk (root.joinAll names) (admits walker excludes))) :=
    runDirectory_sorted h
  rw [hdiscovered]
  refine Keyed.sortBy_eq_of_strict _ ?_ ?_
  · exact (found_filesBelow hwalks hdir hinner).trans (hfiles.map _)
  · rw [List.map_map, List.pairwise_map]
    have hdistinct := project.distinct.inside hinner
    have hcomponents : ∀ rel ∈ files, (path.join (FilePath.ofNames rel)).components
        = path.components ++ FilePath.normals rel := by
      intro rel hrel
      obtain ⟨hvalue, _⟩ := (mem_filesBelow hdistinct).mp (hfiles.mem_iff.mpr hrel)
      have hne : rel ≠ [] := Forest.ne_nil_of_valueAt hvalue
      have hplain : ∀ name ∈ rel, isPlain name = true := by
        intro name hname
        refine project.plain (names ++ rel) .File ?_ name (List.mem_append_right _ hname)
        rw [Forest.valueAt_append hinner hne, hvalue]
      rw [← FilePath.joinAll_eq_join path hplain hne, FilePath.components_joinAll path hplain]
    refine (List.pairwise_map.mp hsorted).imp_of_mem fun ha hb hlt => ?_
    show (path.join _).components < (path.join _).components
    rw [hcomponents _ ha, hcomponents _ hb]
    exact List.append_left_lt hlt

/-! ## Below two directories -/

theorem value_of_isDir {names : List String} (hdir : project.IsDir names) :
    project.entries.valueAt names ≠ some .File := by
  intro hfile
  rcases hdir with rfl | hvalue
  · cases hfile
  · rw [hvalue] at hfile
    cases hfile

/-- The files below a directory, in terms of the project. -/
theorem mem_filesBelow_iff {names : List String} (hdir : project.IsDir names)
    {inner : Forest String FileType} (hinner : project.entries.inside names = some inner)
    (rel : List String) : rel ∈ filesBelow walker own root excludes names inner ↔
      project.entries.valueAt (names ++ rel) = some .File ∧
        supported (root.joinAll (names ++ rel)) = true ∧
        ∀ front type, front <+: rel → front ≠ [] →
          project.entries.valueAt (names ++ front) = some type →
            refused walker own excludes root (names ++ front) type = false := by
  have hvalues : inner.valueAt rel = some .File ↔
      project.entries.valueAt (names ++ rel) = some .File := by
    by_cases hrel : rel = []
    · rw [hrel, List.append_nil]
      exact iff_of_false (fun h => Forest.ne_nil_of_valueAt h rfl) (value_of_isDir hdir)
    · rw [Forest.valueAt_append hinner hrel]
  rw [mem_filesBelow (project.distinct.inside hinner), hvalues]
  refine and_congr_right fun _ => and_congr_right fun _ => ?_
  refine forall_congr' fun front => forall_congr' fun type => imp_congr_right fun _ => ?_
  by_cases hfront : front = []
  · rw [hfront]
    exact iff_of_true (fun h => absurd rfl (Forest.ne_nil_of_valueAt h)) fun h => absurd rfl h
  · rw [Forest.valueAt_append hinner hfront]
    exact ⟨fun h _ => h, fun h => h hfront⟩

theorem lt_of_append_lt {l x y : List Component} (h : l ++ x < l ++ y) : x < y := by
  rcases lt_trichotomy x y with hlt | rfl | hgt
  · exact hlt
  · exact absurd h (lt_irrefl _)
  · exact absurd h (lt_asymm (List.append_left_lt hgt))

/-- Below an inner directory stand the files that stand there below the outer one. -/
theorem filesBelow_inside {names way : List String} (hway : project.IsDir (names ++ way))
    {inner last : Forest String FileType} (hinner : project.entries.inside names = some inner)
    (hlast : project.entries.inside (names ++ way) = some last)
    (hopen : Forest.Open (refused walker own excludes root) names inner way) (rel : List String) :
    rel ∈ filesBelow walker own root excludes (names ++ way) last ↔
      way ++ rel ∈ filesBelow walker own root excludes names inner := by
  have hinside : inner.inside way = some last := by
    rwa [Forest.inside_append, hinner, Option.bind_some] at hlast
  rw [mem_filesBelow (project.distinct.inside hlast),
    mem_filesBelow (project.distinct.inside hinner), Forest.open_append hinside hopen,
    List.append_assoc]
  refine and_congr_left fun _ => ?_
  by_cases hrel : rel = []
  · have hnone : inner.valueAt way ≠ some .File := by
      intro hvalue
      have hne : way ≠ [] := Forest.ne_nil_of_valueAt hvalue
      exact value_of_isDir hway ((Forest.valueAt_append hinner hne).trans hvalue)
    rw [hrel, List.append_nil]
    exact iff_of_false (fun h => Forest.ne_nil_of_valueAt h rfl) hnone
  · rw [Forest.valueAt_append hinside hrel]

/-- What is left of an address below `way`. -/
theorem append_drop_of_below {way rel : List String} {files : List (List String)}
    (h : rel ∈ files.filter fun rel => way.isPrefixOf rel) : way ++ rel.drop way.length = rel := by
  obtain ⟨tail, htail⟩ := List.isPrefixOf_iff_prefix.mp (List.mem_filter.mp h).2
  rw [← htail, List.drop_left]

/-- The files below an inner directory are those below the outer one that stand under it. -/
theorem filesBelow_inside_perm {names way : List String} (hway : project.IsDir (names ++ way))
    {inner last : Forest String FileType} (hinner : project.entries.inside names = some inner)
    (hlast : project.entries.inside (names ++ way) = some last)
    (hopen : Forest.Open (refused walker own excludes root) names inner way)
    {files : List (List String)}
    (hfiles : files.Perm (filesBelow walker own root excludes names inner)) :
    (filesBelow walker own root excludes (names ++ way) last).Perm
      ((files.filter fun rel => way.isPrefixOf rel).map (List.drop way.length)) := by
  have hnodup : files.Nodup :=
    hfiles.nodup_iff.mpr (nodup_filesBelow (project.distinct.inside hinner))
  refine (List.perm_ext_iff_of_nodup (nodup_filesBelow (project.distinct.inside hlast)) ?_).mpr
    fun rel => ?_
  · refine (hnodup.filter _).map_on fun rel hrel other hother heq => ?_
    rw [← append_drop_of_below hrel, ← append_drop_of_below hother, heq]
  · rw [filesBelow_inside hway hinner hlast hopen, ← hfiles.mem_iff, List.mem_map]
    constructor
    · intro hmem
      refine ⟨way ++ rel, List.mem_filter.mpr ⟨hmem, ?_⟩, List.drop_left⟩
      exact List.isPrefixOf_iff_prefix.mpr (List.prefix_append way rel)
    · intro hmem
      obtain ⟨full, hfull, rfl⟩ := hmem
      rw [append_drop_of_below hfull]
      exact (List.mem_filter.mp hfull).1

/-- Addresses in order stay in order below `way`. -/
theorem strict_below {files : List (List String)}
    (h : (files.map FilePath.normals).Pairwise (· < ·)) (way : List String) :
    (((files.filter fun rel => way.isPrefixOf rel).map (List.drop way.length)).map
      FilePath.normals).Pairwise (· < ·) := by
  rw [List.map_map, List.pairwise_map]
  refine ((List.pairwise_map.mp h).filter _).imp_of_mem fun {rel other} hrel hother hlt => ?_
  have hsame : FilePath.normals way ++ FilePath.normals (rel.drop way.length)
      < FilePath.normals way ++ FilePath.normals (other.drop way.length) := by
    rw [← FilePath.normals_append, ← FilePath.normals_append, append_drop_of_below hrel,
      append_drop_of_below hother]
    exact hlt
  exact lt_of_append_lt hsame

/-- From a directory inside another one, with nothing refused on the way, a run finds the files
    that a run from the outer one finds there, each under its own path. A file is found if it is a
    regular one of a language and neither it nor a directory on the way to it is refused. -/
theorem found_below (hwalks : Walks walker own root project) (config : StilesConfig)
    (names way : List String) (path inside : FilePath) (hdir : project.IsDir names)
    (hway : project.IsDir (names ++ way))
    (hpath : walker.canonicalize path = .ok (root.joinAll names))
    (hinside : walker.canonicalize inside = .ok (root.joinAll (names ++ way)))
    (hopen : ∀ excludes, buildExcludes walker config = .ok excludes → ∀ front type,
      front <+: way → front ≠ [] → project.entries.valueAt (names ++ front) = some type →
        refused walker own excludes root (names ++ front) type = false) :
    (∀ e, buildExcludes walker config = .error e → ∀ onError,
      run walker path config onError = .error (e.context "failed to read the ignore patterns") ∧
      run walker inside config onError
        = .error (e.context "failed to read the ignore patterns")) ∧
    ∀ excludes, buildExcludes walker config = .ok excludes → ∃ files : List (List String),
      (∀ rel, rel ∈ files ↔ project.entries.valueAt (names ++ rel) = some .File ∧
        supported (root.joinAll (names ++ rel)) = true ∧
        ∀ front type, front <+: rel → front ≠ [] →
          project.entries.valueAt (names ++ front) = some type →
            refused walker own excludes root (names ++ front) type = false) ∧
      (∃ discovery, run walker path config .ReportAndContinue = .ok discovery) ∧
      (∃ discovery, run walker inside config .ReportAndContinue = .ok discovery) ∧
      (∀ onError discovery, run walker path config onError = .ok discovery →
        discovery.files = files.map fun rel => path.join (FilePath.ofNames rel)) ∧
      ∀ onError discovery, run walker inside config onError = .ok discovery →
        discovery.files = (files.filter fun rel => way.isPrefixOf rel).map fun rel =>
          inside.join (FilePath.ofNames (rel.drop way.length)) := by
  refine ⟨fun e hexcludes onError => ⟨?_, ?_⟩, fun excludes hexcludes => ?_⟩
  · rw [run, hpath, hexcludes]
    rfl
  · rw [run, hinside, hexcludes]
    rfl
  obtain ⟨inner, hinner⟩ := hdir.inside
  obtain ⟨last, hlast⟩ := hway.inside
  have hrun := run_directory hpath hexcludes (hwalks.isFile names hdir)
  have hrunInside := run_directory hinside hexcludes (hwalks.isFile (names ++ way) hway)
  have hopened : Forest.Open (refused walker own excludes root) names inner way := by
    intro front type hfront hvalue
    have hne : front ≠ [] := Forest.ne_nil_of_valueAt hvalue
    exact hopen excludes hexcludes front type hfront hne
      ((Forest.valueAt_append hinner hne).trans hvalue)
  have hnodup : (filesBelow walker own root excludes names inner).Nodup :=
    nodup_filesBelow (project.distinct.inside hinner)
  have hperm := Keyed.sortBy_perm FilePath.normals
    (filesBelow walker own root excludes names inner)
  have hstrict := Keyed.strict_sortBy FilePath.normals
    (hnodup.map FilePath.normals_injective)
  generalize Keyed.sortBy FilePath.normals (filesBelow walker own root excludes names inner)
    = files at hperm hstrict
  refine ⟨files, fun rel => ?_, ⟨_, (hrun _).trans (runDirectory_eq walker excludes _ _).1⟩,
    ⟨_, (hrunInside _).trans (runDirectory_eq walker excludes _ _).1⟩, ?_, ?_⟩
  · rw [hperm.mem_iff, mem_filesBelow_iff hdir hinner]
  · intro onError discovery h
    rw [hrun] at h
    exact runDirectory_files hwalks hdir hinner h hperm.symm hstrict
  · intro onError discovery h
    rw [hrunInside] at h
    have hpermInside := filesBelow_inside_perm hway hinner hlast hopened hperm
    rw [runDirectory_files hwalks hway hlast h hpermInside (strict_below hstrict way),
      List.map_map]
    rfl

end

/-! ## A walker of a project -/

/-- The names below `root` on the way to a path. -/
def namesBelow (root path : FilePath) : List String :=
  (path.components.drop root.components.length).filterMap fun
    | .Normal name => some (String.ofList name)
    | _ => none

theorem namesBelow_joinAll (root : FilePath) {names : List String}
    (h : ∀ name ∈ names, isPlain name = true) : namesBelow root (root.joinAll names) = names := by
  rw [namesBelow, FilePath.components_joinAll root h, List.drop_left, FilePath.normals,
    List.filterMap_map]
  refine (List.filterMap_congr fun name _ => ?_).trans List.filterMap_some
  exact congrArg some String.ofList_toList

/-- Reads the project at `root`. A pattern refuses the entries of its name. -/
def projectWalker (own : FilePath → FileType → Bool) (root : FilePath) (project : Project) :
    Walker where
  Builder := List String
  Gitignore := List String
  new _ := []
  addLine patterns line := .ok (line :: patterns)
  build patterns := .ok patterns
  matched patterns path _ :=
    if path.fileName.any fun name => patterns.contains (String.ofList name) then .Ignore else .None
  display _ := "failed to read"
  canonicalize path := .ok (if path = ⟨"."⟩ then root else root.join path)
  isFile path := project.entries.valueAt (namesBelow root path) = some .File
  walk path filter :=
    match project.entries.inside (namesBelow root path) with
    | none => []
    | some inner =>
      .ok ⟨path, some .Dir, none⟩ ::
        (inner.visits (fun names type => own (root.joinAll names) type ||
          !filter ⟨root.joinAll names, some type, none⟩) (namesBelow root path)).map fun entry =>
            .ok ⟨root.joinAll entry.1, some entry.2, none⟩

theorem projectWalker_walks (own : FilePath → FileType → Bool) {root : FilePath}
    (hroot : root.components ≠ []) (project : Project) :
    Walks (projectWalker own root project) own root project where
  rooted := hroot
  isFile names hdir := by
    show decide (project.entries.valueAt (namesBelow root (root.joinAll names)) = some .File)
      = false
    rw [namesBelow_joinAll root hdir.plain]
    exact decide_eq_false (value_of_isDir hdir)
  walk excludes names inner hdir hinner := by
    refine List.Perm.of_eq ?_
    show visited (match project.entries.inside (namesBelow root (root.joinAll names)) with
      | none => []
      | some inner => _) = _
    rw [namesBelow_joinAll root hdir.plain, hinner, visited, List.filterMap_cons]
    dsimp only
    rw [List.filterMap_map]
    exact congrArg _ (List.filterMap_eq_map' ▸ rfl)

/-- Three files below `src`, one of them in a directory of its own, and one beside it. -/
def sampleEntries : Forest String FileType :=
  .cons "src" .Dir
    (.cons "main.rs" .File .nil
      (.cons "generated" .Dir (.cons "out.rs" .File .nil .nil)
        (.cons "app.ts" .File .nil .nil)))
    (.cons "build.rs" .File .nil (.cons ".hidden.rs" .File .nil .nil))

theorem sampleEntries_distinct : sampleEntries.Distinct :=
  ⟨rfl, ⟨rfl, trivial, rfl, ⟨rfl, trivial, trivial⟩, rfl, trivial, trivial⟩, rfl, trivial, rfl,
    trivial, trivial⟩

def sampleProject : Project where
  entries := sampleEntries
  distinct := sampleEntries_distinct
  plain names type h := by
    have hall : ∀ entry ∈ sampleEntries.visits (fun _ _ => false) [],
        ∀ name ∈ entry.1, isPlain name = true := by decide
    exact hall (names, type) ((Forest.mem_visits_all sampleEntries_distinct).mpr h)
  parents names name type h := by
    have hall : ∀ entry ∈ sampleEntries.visits (fun _ _ => false) [],
        entry.1.dropLast = [] ∨ sampleEntries.valueAt entry.1.dropLast = some .Dir := by
      decide
    have hparent := hall (names ++ [name], type)
      ((Forest.mem_visits_all sampleEntries_distinct).mpr h)
    rwa [List.dropLast_concat] at hparent

/-- The walker keeps out hidden entries, and the configuration what is generated. -/
def sampleWalker : Walker :=
  projectWalker (fun path _ => path.fileName.any fun name => name.head? = some '.') ⟨"/project"⟩
    sampleProject

def sampleConfig : StilesConfig :=
  { projectConfig with ignore := [⟨"generated"⟩] }

/-- Both walks succeed. The hidden file and the generated one are found by neither. -/
theorem found_below_src : ∃ outer inner : Discovery,
    run sampleWalker ⟨"."⟩ sampleConfig .ReportAndContinue = .ok outer ∧
    run sampleWalker ⟨"src"⟩ sampleConfig .ReportAndContinue = .ok inner ∧
    outer.files = [⟨"./build.rs"⟩, ⟨"./src/app.ts"⟩, ⟨"./src/main.rs"⟩] ∧
    inner.files = [⟨"src/app.ts"⟩, ⟨"src/main.rs"⟩] ∧
    ∃ files : List (List String),
      outer.files = files.map (fun rel => (⟨"."⟩ : FilePath).join (FilePath.ofNames rel)) ∧
      inner.files = (files.filter fun rel => ["src"].isPrefixOf rel).map fun rel =>
        (⟨"src"⟩ : FilePath).join (FilePath.ofNames (rel.drop 1)) := by
  have hwalks : Walks sampleWalker _ ⟨"/project"⟩ sampleProject :=
    projectWalker_walks _ (by decide) sampleProject
  obtain ⟨_, hfound⟩ := found_below hwalks sampleConfig [] ["src"] ⟨"."⟩ ⟨"src"⟩ (Or.inl rfl)
    (Or.inr (by decide)) rfl rfl (by
      intro excludes hexcludes front type hfront hne hvalue
      obtain rfl := Except.ok.inj hexcludes
      obtain ⟨tail, htail⟩ := hfront
      cases front with
      | nil => exact absurd rfl hne
      | cons name front =>
        obtain ⟨rfl, hrest⟩ := List.cons.inj htail
        obtain ⟨rfl, _⟩ := List.append_eq_nil_iff.mp hrest
        obtain rfl := Option.some.inj hvalue
        decide)
  obtain ⟨files, _, _, _, houter, hinner⟩ := hfound _ rfl
  have hrun : run sampleWalker ⟨"."⟩ sampleConfig .ReportAndContinue =
      .ok ⟨[⟨"./build.rs"⟩, ⟨"./src/app.ts"⟩, ⟨"./src/main.rs"⟩], []⟩ := by decide
  have hrunInside : run sampleWalker ⟨"src"⟩ sampleConfig .ReportAndContinue =
      .ok ⟨[⟨"src/app.ts"⟩, ⟨"src/main.rs"⟩], []⟩ := by decide
  exact ⟨_, _, hrun, hrunInside, rfl, rfl, files, houter _ _ hrun, hinner _ _ hrunInside⟩

end Discovery

end Stiles
