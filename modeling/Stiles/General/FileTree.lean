import Stiles.General.Trail

/-
  Trees of files and directories.

  A path is a list of names from the top of the tree. `createDirAll` and `put` fail where a file or
  a directory is in the way. `walk` follows steps as an operating system does: each step starts in a
  directory, so a step into a directory and back out of it needs that directory.

  * `node_createDirAll`, `node_put`: what stands where after a change.
  * `Stores.write`: a tree that holds some files and nothing else, after one more.
  * `walk_eq_some`: a walk ends where its steps lead, if there is a directory before each of them.
-/

/-- The entries of a directory. Of two entries with one name the first counts. -/
inductive FileTree (ν β : Type*) where
  | nil
  | file (name : ν) (content : β) (rest : FileTree ν β)
  | dir (name : ν) (below rest : FileTree ν β)
deriving DecidableEq

namespace FileTree

/-- One entry of a directory. -/
inductive Entry (ν β : Type*) where
  | file (content : β)
  | dir (below : FileTree ν β)

/-- What stands at a path. -/
inductive Node (β : Type*) where
  | file (content : β)
  | dir
deriving DecidableEq

variable {ν β : Type*} [DecidableEq ν]

/-- The entry with a name. -/
def child : FileTree ν β → ν → Option (Entry ν β)
  | .nil, _ => none
  | .file name content rest, n => if name = n then some (.file content) else rest.child n
  | .dir name below rest, n => if name = n then some (.dir below) else rest.child n

def cons (name : ν) : Entry ν β → FileTree ν β → FileTree ν β
  | .file content, rest => .file name content rest
  | .dir below, rest => .dir name below rest

/-- The entry in place of the one with the name, or behind all others. -/
def set (name : ν) (entry : Entry ν β) : FileTree ν β → FileTree ν β
  | .nil => cons name entry .nil
  | .file other content rest =>
    if other = name then cons name entry rest else .file other content (set name entry rest)
  | .dir other below rest =>
    if other = name then cons name entry rest else .dir other below (set name entry rest)

def node : List ν → FileTree ν β → Option (Node β)
  | [], _ => some .dir
  | name :: path, tree =>
    match tree.child name with
    | none => none
    | some (.file content) => if path = [] then some (.file content) else none
    | some (.dir below) => node path below

/-- The directory at a path. -/
def inside : List ν → FileTree ν β → Option (FileTree ν β)
  | [], tree => some tree
  | name :: path, tree =>
    match tree.child name with
    | some (.dir below) => inside path below
    | _ => none

/-- The files of a tree that stands at `place`, with their contents. -/
def files (place : List ν) : FileTree ν β → List (List ν × β)
  | .nil => []
  | .file name content rest => (place ++ [name], content) :: files place rest
  | .dir name below rest => files (place ++ [name]) below ++ files place rest

/-- A directory at the path, and all directories above it. -/
def createDirAll : List ν → FileTree ν β → Option (FileTree ν β)
  | [], tree => some tree
  | name :: path, tree =>
    match tree.child name with
    | none => (createDirAll path .nil).map fun below => tree.set name (.dir below)
    | some (.file _) => none
    | some (.dir below) => (createDirAll path below).map fun below => tree.set name (.dir below)

/-- A file at the path, in a directory that is there. -/
def put (content : β) : List ν → FileTree ν β → Option (FileTree ν β)
  | [], _ => none
  | name :: path, tree =>
    match tree.child name with
    | none => if path = [] then some (set name (.file content) tree) else none
    | some (.file _) => if path = [] then some (set name (.file content) tree) else none
    | some (.dir below) => (put content path below).map fun below => tree.set name (.dir below)

/-! ## Lookups -/

theorem child_cons (name other : ν) (entry : Entry ν β) (rest : FileTree ν β) :
    (cons name entry rest).child other = if name = other then some entry else rest.child other := by
  cases entry with
  | file content => rfl
  | dir below => rfl

/-- An entry that was replaced is not found again. -/
theorem child_cons_of_eq {tree rest : FileTree ν β} {name : ν} (old : Entry ν β)
    (h : tree = cons name old rest) (other : ν) (entry : Entry ν β) :
    (cons name entry rest).child other = if name = other then some entry else tree.child other := by
  rw [child_cons, h, child_cons]
  split
  · rfl
  · rfl

theorem child_set (tree : FileTree ν β) (name other : ν) (entry : Entry ν β) :
    (set name entry tree).child other = if name = other then some entry else tree.child other := by
  induction tree with
  | nil => exact child_cons name other entry .nil
  | file label content rest ih =>
    unfold set
    split
    · rename_i hlabel
      exact child_cons_of_eq (.file content) (by rw [hlabel, cons]) other entry
    · rename_i hlabel
      rw [child, child, ih]
      by_cases hother : label = other
      · rw [if_pos hother, if_neg fun h => hlabel (hother.trans h.symm), if_pos hother]
      · rw [if_neg hother, if_neg hother]
  | dir label below rest _ ih =>
    unfold set
    split
    · rename_i hlabel
      exact child_cons_of_eq (.dir below) (by rw [hlabel, cons]) other entry
    · rename_i hlabel
      rw [child, child, ih]
      by_cases hother : label = other
      · rw [if_pos hother, if_neg fun h => hlabel (hother.trans h.symm), if_pos hother]
      · rw [if_neg hother, if_neg hother]

@[simp] theorem node_root (tree : FileTree ν β) : node [] tree = some .dir := rfl

theorem node_nil {path : List ν} (h : path ≠ []) : node path (.nil : FileTree ν β) = none := by
  obtain ⟨name, path, rfl⟩ := List.exists_cons_of_ne_nil h
  rfl

theorem node_congr {tree other : FileTree ν β} {name : ν} (h : tree.child name = other.child name)
    (path : List ν) : node (name :: path) tree = node (name :: path) other := by
  rw [node, node, h]

theorem node_of_child_none {tree : FileTree ν β} {name : ν} (h : tree.child name = none)
    (path : List ν) : node (name :: path) tree = none := by
  rw [node, h]

theorem node_of_child_file {tree : FileTree ν β} {name : ν} {content : β}
    (h : tree.child name = some (.file content)) (path : List ν) :
    node (name :: path) tree = if path = [] then some (.file content) else none := by
  rw [node, h]

theorem node_of_child_dir {tree below : FileTree ν β} {name : ν}
    (h : tree.child name = some (.dir below)) (path : List ν) :
    node (name :: path) tree = node path below := by
  rw [node, h]

theorem child_cons_self (name : ν) (entry : Entry ν β) (rest : FileTree ν β) :
    (cons name entry rest).child name = some entry := by
  rw [child_cons, if_pos rfl]

theorem node_cons_of_ne {name other : ν} (h : name ≠ other) (entry : Entry ν β)
    (rest : FileTree ν β) (path : List ν) :
    node (other :: path) (cons name entry rest) = node (other :: path) rest := by
  apply node_congr
  rw [child_cons, if_neg h]

theorem child_set_self (tree : FileTree ν β) (name : ν) (entry : Entry ν β) :
    (set name entry tree).child name = some entry := by
  rw [child_set, if_pos rfl]

/-- An entry changes nothing under other names. -/
theorem node_set_of_ne {tree : FileTree ν β} {name other : ν} (h : name ≠ other)
    (entry : Entry ν β) (path : List ν) :
    node (other :: path) (set name entry tree) = node (other :: path) tree := by
  apply node_congr
  rw [child_set, if_neg h]

theorem node_append {tree below : FileTree ν β} {place : List ν}
    (h : inside place tree = some below) (path : List ν) :
    node (place ++ path) tree = node path below := by
  induction place generalizing tree with
  | nil =>
    obtain rfl := Option.some.inj h
    rfl
  | cons name place ih =>
    unfold inside at h
    split at h
    · rename_i hchild
      rw [List.cons_append, node, hchild]
      exact ih h
    · cases h

/-! ## Listings -/

omit [DecidableEq ν] in
theorem files_cons {path : List ν} {content : β} (tree : FileTree ν β) (place : List ν)
    (h : (path, content) ∈ tree.files place) : ∃ name rest, path = place ++ name :: rest := by
  induction tree generalizing place with
  | nil => exact absurd h List.not_mem_nil
  | file name content rest ih =>
    rw [files, List.mem_cons] at h
    rcases h with hfirst | hlater
    · exact ⟨name, [], congrArg Prod.fst hfirst⟩
    · exact ih place hlater
  | dir name below rest ihbelow ihrest =>
    rw [files, List.mem_append] at h
    rcases h with hfirst | hlater
    · obtain ⟨inner, more, rfl⟩ := ihbelow _ hfirst
      exact ⟨name, inner :: more, List.append_assoc ..⟩
    · exact ihrest place hlater

/-- Every file of the tree is listed. -/
theorem mem_files {tree : FileTree ν β} {path : List ν} {content : β}
    (h : node path tree = some (.file content)) (place : List ν) :
    (place ++ path, content) ∈ tree.files place := by
  induction tree generalizing place path with
  | nil =>
    cases path with
    | nil => cases h
    | cons name path => cases h
  | file name held rest ih =>
    cases path with
    | nil => cases h
    | cons first path =>
      change node (first :: path) (cons name (.file held) rest) = _ at h
      by_cases hname : name = first
      · rw [← hname, node_of_child_file (child_cons_self name _ rest)] at h
        split at h
        · rename_i hpath
          obtain rfl := Node.file.inj (Option.some.inj h)
          rw [hpath, ← hname]
          exact List.mem_cons_self
        · cases h
      · rw [node_cons_of_ne hname] at h
        exact List.mem_cons_of_mem _ (ih h place)
  | dir name below rest ihbelow ihrest =>
    cases path with
    | nil => cases h
    | cons first path =>
      change node (first :: path) (cons name (.dir below) rest) = _ at h
      rw [files, List.mem_append]
      by_cases hname : name = first
      · rw [← hname, node_of_child_dir (child_cons_self name _ rest)] at h
        have hmem := ihbelow h (place ++ [name])
        rw [List.append_assoc] at hmem
        rw [← hname]
        exact Or.inl hmem
      · rw [node_cons_of_ne hname] at h
        exact Or.inr (ihrest h place)

/-! ## Changes -/

/-- A directory with the directories of `path` in it, in place of one without them. -/
theorem node_set_created {tree inner below : FileTree ν β} {name : ν} {path : List ν}
    (hinner : ∀ other, other ≠ [] → node (name :: other) tree = node other inner)
    (hbelow : ∀ other, node other below = if other <+: path then some .dir else node other inner)
    (other : List ν) : node other (set name (.dir below) tree) =
      if other <+: name :: path then some .dir else node other tree := by
  cases other with
  | nil => rw [node_root, if_pos List.nil_prefix]
  | cons first other =>
    by_cases hname : name = first
    · rw [← hname, node_of_child_dir (child_set_self tree name _), hbelow]
      by_cases hfrom : other <+: path
      · rw [if_pos hfrom, if_pos (List.cons_prefix_cons.mpr ⟨rfl, hfrom⟩)]
      · have hne : other ≠ [] := by
          intro hnil
          rw [hnil] at hfrom
          exact hfrom List.nil_prefix
        rw [if_neg hfrom, if_neg fun h => hfrom (List.cons_prefix_cons.mp h).2,
          hinner other hne]
    · rw [node_set_of_ne hname, if_neg fun h => hname (List.cons_prefix_cons.mp h).1.symm]

/-- The directories of the path stand where they were created, and nothing else changes. -/
theorem node_createDirAll {path : List ν} {tree result : FileTree ν β}
    (h : createDirAll path tree = some result) (other : List ν) :
    node other result = if other <+: path then some .dir else node other tree := by
  induction path generalizing tree result other with
  | nil =>
    obtain rfl := Option.some.inj h
    split
    · rename_i hfrom
      rw [List.prefix_nil.mp hfrom, node_root]
    · rfl
  | cons name path ih =>
    unfold createDirAll at h
    split at h
    · rename_i hchild
      obtain ⟨below, hbelow, rfl⟩ := Option.map_eq_some_iff.mp h
      refine node_set_created (fun other hne => ?_) (ih hbelow) other
      rw [node_of_child_none hchild, node_nil hne]
    · cases h
    · rename_i inner hchild
      obtain ⟨below, hbelow, rfl⟩ := Option.map_eq_some_iff.mp h
      exact node_set_created (fun other _ => node_of_child_dir hchild other) (ih hbelow) other

/-- A file is in no one's way. -/
theorem not_file_of_createDirAll {path : List ν} {tree result : FileTree ν β}
    (h : createDirAll path tree = some result) {other : List ν} (hother : other <+: path)
    (content : β) : node other tree ≠ some (.file content) := by
  induction path generalizing tree result other with
  | nil =>
    rw [List.prefix_nil.mp hother, node_root]
    exact fun hfile => by cases hfile
  | cons name path ih =>
    cases other with
    | nil =>
      rw [node_root]
      exact fun hfile => by cases hfile
    | cons first other =>
      obtain ⟨rfl, hrest⟩ := List.cons_prefix_cons.mp hother
      unfold createDirAll at h
      split at h
      · rename_i hchild
        rw [node_of_child_none hchild]
        exact fun hfile => by cases hfile
      · cases h
      · rename_i inner hchild
        obtain ⟨below, hbelow, _⟩ := Option.map_eq_some_iff.mp h
        rw [node_of_child_dir hchild]
        exact ih hbelow hrest

/-- A file in place of another, or in place of nothing. -/
theorem node_set_file {tree : FileTree ν β} {name : ν}
    (h : ∀ path, path ≠ [] → node (name :: path) tree = none) (content : β) (other : List ν) :
    node other (set name (.file content) tree) =
      if other = [name] then some (.file content) else node other tree := by
  cases other with
  | nil => rw [node_root, node_root, if_neg (List.cons_ne_nil _ _).symm]
  | cons first other =>
    by_cases hname : name = first
    · rw [← hname, node_of_child_file (child_set_self tree name _)]
      by_cases hother : other = []
      · rw [if_pos hother, if_pos (by rw [hother])]
      · rw [if_neg hother, if_neg fun h => hother (List.cons.inj h).2, h other hother]
    · rw [node_set_of_ne hname, if_neg fun h => hname (List.cons.inj h).1.symm]

/-- The file stands where it was put, nothing else changes, and it took no directory's place. -/
theorem node_put {content : β} {path : List ν} {tree result : FileTree ν β}
    (h : put content path tree = some result) :
    path ≠ [] ∧ node path tree ≠ some .dir ∧ ∀ other, node other result =
      if other = path then some (.file content) else node other tree := by
  induction path generalizing tree result with
  | nil => cases h
  | cons name path ih =>
    refine ⟨List.cons_ne_nil _ _, ?_⟩
    unfold put at h
    split at h
    · rename_i hchild
      split at h
      · rename_i hpath
        obtain rfl := Option.some.inj h
        rw [hpath, node_of_child_none hchild]
        refine ⟨(fun hdir => by cases hdir), ?_⟩
        exact node_set_file (fun path _ => node_of_child_none hchild path) content
      · cases h
    · rename_i held hchild
      split at h
      · rename_i hpath
        obtain rfl := Option.some.inj h
        rw [hpath, node_of_child_file hchild]
        refine ⟨(fun hdir => by cases hdir), node_set_file (fun path hne => ?_) content⟩
        rw [node_of_child_file hchild, if_neg hne]
      · cases h
    · rename_i inner hchild
      obtain ⟨below, hbelow, rfl⟩ := Option.map_eq_some_iff.mp h
      obtain ⟨_, hdir, hnode⟩ := ih hbelow
      rw [node_of_child_dir hchild]
      refine ⟨hdir, fun other => ?_⟩
      cases other with
      | nil => rw [node_root, node_root, if_neg (List.cons_ne_nil _ _).symm]
      | cons first other =>
        by_cases hname : name = first
        · rw [← hname, node_of_child_dir (child_set_self tree name _), hnode,
            node_of_child_dir hchild]
          by_cases hother : other = path
          · rw [if_pos hother, if_pos (by rw [hother])]
          · rw [if_neg hother, if_neg fun h => hother (List.cons.inj h).2]
        · rw [node_set_of_ne hname, if_neg fun h => hname (List.cons.inj h).1.symm]

/-! ## What a tree stores -/

/-- The tree holds these files and nothing else but the directories above them. -/
structure Stores (tree : FileTree ν β) (stored : List (List ν × β)) : Prop where
  files : ∀ path content, node path tree = some (.file content) ↔ (path, content) ∈ stored
  dirs : ∀ path, node path tree = some .dir ↔
    path = [] ∨ ∃ entry ∈ stored, path <+: entry.1 ∧ path ≠ entry.1

theorem stores_nil : Stores (.nil : FileTree ν β) [] where
  files path content := by
    refine iff_of_false (fun h => ?_) List.not_mem_nil
    by_cases hpath : path = []
    · rw [hpath, node_root] at h
      cases h
    · rw [node_nil hpath] at h
      cases h
  dirs path := by
    constructor
    · intro h
      by_contra hnot
      rw [node_nil fun hpath => hnot (Or.inl hpath)] at h
      cases h
    · intro h
      rcases h with rfl | ⟨entry, hentry, _⟩
      · rfl
      · exact absurd hentry List.not_mem_nil

omit [DecidableEq ν] in
theorem prefix_dropLast {path other : List ν} (hpath : path ≠ []) :
    other <+: path.dropLast ↔ other <+: path ∧ other ≠ path := by
  have hconcat : path.dropLast ++ [path.getLast hpath] = path := List.dropLast_append_getLast hpath
  constructor
  · intro h
    refine ⟨h.trans (List.dropLast_prefix path), fun hsame => ?_⟩
    have hlength := h.length_le
    rw [hsame, List.length_dropLast] at hlength
    have := List.length_pos_of_ne_nil hpath
    omega
  · intro h
    obtain ⟨hfrom, hne⟩ := h
    rw [← hconcat] at hfrom hne
    exact (List.prefix_concat_iff.mp hfrom).resolve_left hne

/-- After one more file is written, the tree holds that one too. -/
theorem Stores.write {tree created result : FileTree ν β} {stored : List (List ν × β)}
    (hstores : Stores tree stored) {path : List ν} {content : β}
    (hcreated : createDirAll path.dropLast tree = some created)
    (hput : put content path created = some result)
    (hsame : ∀ other, (path, other) ∈ stored → other = content) :
    Stores result (stored ++ [(path, content)]) := by
  obtain ⟨hne, hdir, hnode⟩ := node_put hput
  have hnotAbove : ¬ path <+: path.dropLast := fun h => ((prefix_dropLast hne).mp h).2 rfl
  rw [node_createDirAll hcreated, if_neg hnotAbove] at hdir
  have hlook : ∀ other, node other result = if other = path then some (.file content)
      else if other <+: path ∧ other ≠ path then some .dir else node other tree := by
    intro other
    rw [hnode, node_createDirAll hcreated]
    simp only [prefix_dropLast hne]
  refine ⟨fun other held => ?_, fun other => ?_⟩
  · rw [hlook, List.mem_append, List.mem_singleton]
    by_cases hother : other = path
    · rw [if_pos hother, hother]
      constructor
      · intro h
        obtain rfl := Node.file.inj (Option.some.inj h)
        exact Or.inr rfl
      · intro h
        rcases h with hold | hnew
        · rw [hsame held hold]
        · obtain rfl := (Prod.mk.inj hnew).2
          rfl
    · rw [if_neg hother, or_iff_left fun h => hother (congrArg Prod.fst h), ← hstores.files]
      by_cases habove : other <+: path ∧ other ≠ path
      · rw [if_pos habove]
        refine iff_of_false (fun h => by cases h) ?_
        exact not_file_of_createDirAll hcreated ((prefix_dropLast hne).mpr habove) held
      · rw [if_neg habove]
  · rw [hlook]
    simp only [List.mem_append, List.mem_singleton, or_and_right, exists_or, exists_eq_left]
    rw [← or_assoc, ← hstores.dirs]
    by_cases hother : other = path
    · rw [if_pos hother, hother]
      exact iff_of_false (fun h => by cases h) (not_or.mpr ⟨hdir, fun h => h.2 rfl⟩)
    · rw [if_neg hother]
      by_cases habove : other <+: path ∧ other ≠ path
      · rw [if_pos habove]
        exact iff_of_true rfl (Or.inr habove)
      · rw [if_neg habove, or_iff_left habove]

/-! ## Walks -/

/-- Where steps lead from a place, if there is a directory before each of them. -/
def walk (tree : FileTree ν β) : List ν → List (Option ν) → Option (List ν)
  | place, [] => some place
  | place, step :: steps =>
    match node place tree with
    | some .dir => walk tree (Trail.step place step) steps
    | _ => none

/-- The content of the file that steps lead to. -/
def read (tree : FileTree ν β) (place : List ν) (steps : List (Option ν)) : Option β :=
  match walk tree place steps with
  | none => none
  | some path =>
    match node path tree with
    | some (.file content) => some content
    | _ => none

/-- Before each of the steps there is a directory. -/
def Passes (tree : FileTree ν β) (place : List ν) (steps : List (Option ν)) : Prop :=
  ∀ front, front <+: steps → front ≠ steps → node (Trail.follow place front) tree = some .dir

theorem passes_cons {tree : FileTree ν β} {place : List ν} {step : Option ν}
    {steps : List (Option ν)} : Passes tree place (step :: steps) ↔
      node place tree = some .dir ∧ Passes tree (Trail.step place step) steps := by
  constructor
  · intro h
    refine ⟨h [] List.nil_prefix (List.cons_ne_nil _ _).symm, fun front hfront hne => ?_⟩
    exact h (step :: front) (List.cons_prefix_cons.mpr ⟨rfl, hfront⟩)
      fun hsame => hne (List.cons.inj hsame).2
  · intro h front hfront hne
    obtain ⟨hdir, hpasses⟩ := h
    cases front with
    | nil => exact hdir
    | cons first front =>
      obtain ⟨rfl, hrest⟩ := List.cons_prefix_cons.mp hfront
      exact hpasses front hrest fun hsame => hne (by rw [hsame])

theorem walk_eq_some {tree : FileTree ν β} {place path : List ν} {steps : List (Option ν)} :
    walk tree place steps = some path ↔
      Trail.follow place steps = path ∧ Passes tree place steps := by
  induction steps generalizing place with
  | nil =>
    have hpasses : Passes tree place [] :=
      fun front hfront hne => absurd (List.prefix_nil.mp hfront) hne
    rw [walk, Option.some_inj, and_iff_left hpasses]
    rfl
  | cons step steps ih =>
    rw [passes_cons, walk]
    split
    · rename_i hdir
      rw [ih, and_iff_right hdir]
      rfl
    · rename_i hnot
      exact iff_of_false (fun h => by cases h) fun h => hnot h.2.1

/-- A file is read where the steps lead, if there is a directory before each of them. -/
theorem read_eq_some {tree : FileTree ν β} {place : List ν} {steps : List (Option ν)}
    {content : β} : read tree place steps = some content ↔
      node (Trail.follow place steps) tree = some (.file content) ∧ Passes tree place steps := by
  unfold read
  split
  · rename_i hwalk
    refine iff_of_false (fun h => by cases h) fun h => ?_
    rw [walk_eq_some.mpr ⟨rfl, h.2⟩] at hwalk
    cases hwalk
  · rename_i path hwalk
    obtain ⟨rfl, hpasses⟩ := walk_eq_some.mp hwalk
    rw [and_iff_left hpasses]
    split
    · rename_i held hfile
      rw [hfile, Option.some_inj, Option.some_inj, Node.file.injEq]
    · rename_i hnot
      exact iff_of_false (fun h => by cases h) (hnot content)

end FileTree
