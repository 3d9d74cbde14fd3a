import Mathlib.Data.List.Lex
import Stiles.General.FileTree
import Stiles.General.KeyMap
import Stiles.Tools.Bundle.Metadata
import Stiles.Tools.Bundle.Rewrite
import Stiles.TypeScript.Project

/-
  The sources of one crate of the bundle (`main.rs` of bundle-tsrs).

  `copyPackage` writes the rewrite of every `.rs` file of the sources, and copies what they include
  from beside the sources. A disk is a tree, and a `Place` an absolute path in it with no `.` and no
  `..`; cargo names a manifest in this way. `bundle` removes the output before, so the directory of
  a crate starts empty.

  * `copySource_ok`: what one source adds to the bundle.
  * `copyPackage_ok`: the files and the directories of the crate in the bundle.
-/

namespace Stiles

namespace Bundle

open TypeScriptProject (Name trailOf stepOf)

abbrev Place := List Name

/-- `Path::display`. -/
def display (place : Place) : String := "/" ++ "/".intercalate (place.map String.ofList)

structure Disk where
  root : FileTree Name (List UInt8)
  /-- What the operating system says of a path that it fails on. -/
  failure : Place → IoError

/-- The names of a path. -/
def placeOf (components : List Component) : Place :=
  components.filterMap fun component =>
    match component with
    | .Normal name => some name
    | _ => none

namespace Package

def dir (package : Package) : Place := placeOf (package.manifestPath.parent.getD [])

def srcDir (package : Package) : Place := package.dir ++ ["src".toList]

end Package

def isRust (path : Place) : Bool :=
  match path.getLast? with
  | none => false
  | some name => decide ((⟨String.ofList name⟩ : FilePath).extension = some "rs")

/-- The order in which the directories are read does not show, as the files are sorted. -/
def rustFiles (disk : Disk) (dir : Place) : AnyhowResult (List Place) :=
  match disk.root.inside dir with
  | none => .error ⟨"failed to read " ++ display dir, [(disk.failure dir).message]⟩
  | some below => .ok (Keyed.sortBy id (((below.files dir).map Prod.fst).filter isRust))

/-- One step of `normalize`. -/
def normalizeStep (normalized : Place) : Component → Place
  | .ParentDir => normalized.dropLast
  | .CurDir => normalized
  | .RootDir => []
  | .Normal name => normalized ++ [name]

def normalize (path : List Component) : Place := path.foldl normalizeStep []

/-- `Path::join`. A `.` behind the directory does not count. -/
def joined (directory : Place) (other : FilePath) : List Component :=
  if other.isAbsolute then other.components
  else .RootDir :: (directory.map .Normal ++ other.components)

def read (disk : Disk) (path : Place) : AnyhowResult (List UInt8) :=
  match disk.root.node path with
  | some (.file text) =>
    if ByteArray.validateUTF8 ⟨text.toArray⟩ then .ok text
    else .error ⟨"failed to read " ++ display path, ["stream did not contain valid UTF-8"]⟩
  | _ => .error ⟨"failed to read " ++ display path, [(disk.failure path).message]⟩

/-- The directory of a crate in the bundle. -/
abbrev Target := FileTree Name (List UInt8)

/-- `create_dir_all` of what holds `relative`. -/
def createParent (disk : Disk) (targetDir relative : Place) (target : Target) :
    AnyhowResult Target :=
  match target.createDirAll relative.dropLast with
  | none =>
    .error ⟨"failed to create " ++ display (targetDir ++ relative.dropLast),
      [(disk.failure (targetDir ++ relative.dropLast)).message]⟩
  | some target => .ok target

def write (disk : Disk) (targetDir relative : Place) (text : List UInt8) (target : Target) :
    AnyhowResult Target :=
  match createParent disk targetDir relative target with
  | .error e => .error e
  | .ok target =>
    match target.put text relative with
    | none => .error ⟨"failed to write " ++ display (targetDir ++ relative),
        [(disk.failure (targetDir ++ relative)).message]⟩
    | some target => .ok target

/-- The included paths, each with the text of an include that names it. -/
abbrev Includes := KeyMap (fun path : Place => path) String

section

variable (self : Rewriter) (lexer : Lexer) (disk : Disk) (package : Package) (out : Place)

def targetDir : Place := out ++ [package.name.toList]

/-- What the copy of one source leaves: the target, and the includes so far. -/
def copySource (file : Place) (target : Target) (includes : Includes) :
    AnyhowResult (Target × Includes) :=
  match withContext "failed to read a source file" (read disk file) with
  | .error e => .error e
  | .ok text =>
    match withContext ("failed to rewrite " ++ display file)
      (self.rewrite lexer text package.name) with
    | .error e => .error e
    | .ok rewritten =>
      match file.dropPrefix? package.dir with
      | none => .error ⟨display file ++ " is not inside " ++ display package.dir,
          ["prefix not found"]⟩
      | some relative =>
        match withContext "failed to write a rewritten file"
          (write disk (targetDir package out) relative rewritten.text target) with
        | .error e => .error e
        | .ok target =>
          if file = [] then .error (.msg "a source file has no directory")
          else
            .ok (target, rewritten.includes.foldl (fun includes included =>
              includes.insert (normalize (joined file.dropLast ⟨included⟩)) included) includes)

def copySources : List Place → Target → Includes → AnyhowResult (Target × Includes)
  | [], target, includes => .ok (target, includes)
  | file :: files, target, includes =>
    match copySource self lexer disk package out file target includes with
    | .error e => .error e
    | .ok (target, includes) => copySources files target includes

def copyIncludes : List (Place × String) → Target → AnyhowResult Target
  | [], target => .ok target
  | (path, included) :: rest, target =>
    if package.srcDir <+: path then copyIncludes rest target
    else
      match path.dropPrefix? package.dir with
      | none => .error ⟨"`" ++ included ++ "` reaches outside " ++ display package.dir,
          ["prefix not found"]⟩
      | some relative =>
        match createParent disk (targetDir package out) relative target with
        | .error e => .error e
        | .ok target =>
          match disk.root.node path with
          | some (.file content) =>
            match target.put content relative with
            | none => .error ⟨"failed to copy " ++ display path, [(disk.failure path).message]⟩
            | some target => copyIncludes rest target
          | _ => .error ⟨"failed to copy " ++ display path, [(disk.failure path).message]⟩

/-- The directory of the crate in the bundle. -/
def copyPackage : AnyhowResult Target :=
  match withContext "failed to list the source files" (rustFiles disk package.srcDir) with
  | .error e => .error e
  | .ok files =>
    match copySources self lexer disk package out files .nil .empty with
    | .error e => .error e
    | .ok (target, includes) => copyIncludes disk package out includes.sorted target

end

/-! ## Paths -/

variable {self : Rewriter} {lexer : Lexer} {disk : Disk} {package : Package} {out : Place}

theorem dropPrefix_eq_some {path base relative : Place} :
    path.dropPrefix? base = some relative ↔ path = base ++ relative := by
  rw [List.dropPrefix?_eq_some_iff]
  constructor
  · intro h
    obtain ⟨front, hpath, hfront⟩ := h
    rw [hpath, eq_of_beq hfront]
  · exact fun h => ⟨base, h, beq_self_eq_true base⟩

theorem foldl_normalizeStep {components : List Component} (h : .RootDir ∉ components)
    (place : Place) :
    components.foldl normalizeStep place = Trail.follow place (trailOf components) := by
  induction components generalizing place with
  | nil => rfl
  | cons component components ih =>
    rw [List.mem_cons, not_or] at h
    have hrest := ih h.2
    cases component with
    | RootDir => exact absurd rfl h.1
    | CurDir => exact hrest place
    | ParentDir => exact hrest place.dropLast
    | Normal name => exact hrest (place ++ [name])

theorem foldl_normalizeStep_names (names place : Place) :
    (names.map Component.Normal).foldl normalizeStep place = place ++ names := by
  induction names generalizing place with
  | nil => exact (List.append_nil place).symm
  | cons name names ih =>
    rw [List.map_cons, List.foldl_cons, ih, normalizeStep, List.append_assoc]
    rfl

theorem rootDir_not_mem {path : FilePath} (h : path.isAbsolute = false) :
    .RootDir ∉ path.components := by
  have hparts : ∀ parts : List (List Char), Component.RootDir ∉ parts.map Component.ofPart := by
    intro parts hmem
    obtain ⟨part, _, hpart⟩ := List.mem_map.mp hmem
    unfold Component.ofPart at hpart
    split at hpart
    · cases hpart
    · cases hpart
  unfold FilePath.components Component.ofParts
  rw [h, if_neg Bool.false_ne_true]
  split
  · intro hmem
    exact hparts _ ((List.mem_cons.mp hmem).resolve_left Component.noConfusion)
  · exact hparts _

/-- A relative path leads where its steps do. -/
theorem normalize_joined {directory : Place} {other : FilePath} (h : other.isAbsolute = false) :
    normalize (joined directory other) = Trail.follow directory (trailOf other.components) := by
  unfold normalize joined
  rw [h, if_neg Bool.false_ne_true, List.foldl_cons, List.foldl_append, foldl_normalizeStep_names]
  exact foldl_normalizeStep (rootDir_not_mem h) _

/-! ## Sources -/

/-- A `.rs` file below the sources of the package. -/
def IsSource (disk : Disk) (package : Package) (file : Place) : Prop :=
  package.srcDir <+: file ∧ isRust file = true ∧ ∃ text, disk.root.node file = some (.file text)

theorem mem_rustFiles {files : List Place} (h : rustFiles disk package.srcDir = .ok files)
    (file : Place) : (IsSource disk package file → file ∈ files) ∧
      (file ∈ files → package.srcDir <+: file ∧ isRust file = true) := by
  unfold rustFiles at h
  split at h
  · cases h
  · rename_i below hbelow
    obtain rfl := Except.ok.inj h
    rw [Keyed.mem_sortBy, List.mem_filter, List.mem_map]
    constructor
    · intro hsource
      obtain ⟨⟨relative, rfl⟩, hrust, text, hfile⟩ := hsource
      rw [FileTree.node_append hbelow] at hfile
      exact ⟨⟨_, FileTree.mem_files hfile _, rfl⟩, hrust⟩
    · intro hlisted
      obtain ⟨⟨⟨path, content⟩, hmem, rfl⟩, hrust⟩ := hlisted
      obtain ⟨name, rest, hpath⟩ := FileTree.files_cons below _ hmem
      exact ⟨⟨name :: rest, hpath.symm⟩, hrust⟩

/-- A file of the disk, with its rewrite. -/
def Transcribed (self : Rewriter) (lexer : Lexer) (disk : Disk) (package : Package) (file : Place)
    (rewritten : Rewritten) : Prop :=
  ∃ text, disk.root.node file = some (.file text) ∧
    self.rewrite lexer text package.name = .ok rewritten

theorem Transcribed.unique {file : Place} {rewritten other : Rewritten}
    (h : Transcribed self lexer disk package file rewritten)
    (h' : Transcribed self lexer disk package file other) : rewritten = other := by
  obtain ⟨text, hfile, hrewrite⟩ := h
  obtain ⟨text', hfile', hrewrite'⟩ := h'
  rw [hfile] at hfile'
  obtain rfl := FileTree.Node.file.inj (Option.some.inj hfile')
  rw [hrewrite] at hrewrite'
  exact Except.ok.inj hrewrite'

theorem node_of_read {file : Place} {text : List UInt8} (h : read disk file = .ok text) :
    disk.root.node file = some (.file text) := by
  unfold read at h
  split at h
  · rename_i hfile
    split at h
    · obtain rfl := Except.ok.inj h
      exact hfile
    · cases h
  · cases h

theorem createParent_ok {targetDir relative : Place} {target created : Target}
    (h : createParent disk targetDir relative target = .ok created) :
    target.createDirAll relative.dropLast = some created := by
  unfold createParent at h
  split at h
  · cases h
  · rename_i hcreate
    obtain rfl := Except.ok.inj h
    exact hcreate

theorem write_ok {targetDir relative : Place} {text : List UInt8} {target result : Target}
    (h : write disk targetDir relative text target = .ok result) :
    ∃ created, target.createDirAll relative.dropLast = some created ∧
      created.put text relative = some result := by
  unfold write at h
  split at h
  · cases h
  · rename_i created hcreated
    split at h
    · cases h
    · rename_i hput
      obtain rfl := Except.ok.inj h
      exact ⟨created, createParent_ok hcreated, hput⟩

/-- The paths that the includes of a source name. -/
def pathsOf (file : Place) (rewritten : Rewritten) : List Place :=
  rewritten.includes.map fun included => normalize (joined file.dropLast ⟨included⟩)

theorem contains_includes (file : Place) (included : List String) (includes : Includes)
    (path : Place) :
    (included.foldl (fun includes included =>
        includes.insert (normalize (joined file.dropLast ⟨included⟩)) included) includes).contains
          path = true ↔ includes.contains path = true ∨
      path ∈ included.map fun included => normalize (joined file.dropLast ⟨included⟩) := by
  induction included generalizing includes with
  | nil => simp
  | cons first included ih =>
    rw [List.foldl_cons, ih, KeyMap.contains_insert, List.map_cons, List.mem_cons]
    grind

/-- One source is written to the bundle, and its includes are recorded. -/
theorem copySource_ok {file : Place} {target target' : Target} {includes includes' : Includes}
    (h : copySource self lexer disk package out file target includes = .ok (target', includes')) :
    ∃ rewritten relative created, Transcribed self lexer disk package file rewritten ∧
      file = package.dir ++ relative ∧ target.createDirAll relative.dropLast = some created ∧
      created.put rewritten.text relative = some target' ∧
      ∀ path, includes'.contains path = true ↔
        includes.contains path = true ∨ path ∈ pathsOf file rewritten := by
  unfold copySource at h
  split at h
  · cases h
  · rename_i text hread
    split at h
    · cases h
    · rename_i rewritten hrewrite
      split at h
      · cases h
      · rename_i relative hrelative
        split at h
        · cases h
        · rename_i written hwrite
          split at h
          · cases h
          · obtain ⟨rfl, rfl⟩ := Prod.mk.inj (Except.ok.inj h)
            obtain ⟨created, hcreated, hput⟩ := write_ok (withContext_eq_ok.mp hwrite)
            refine ⟨rewritten, relative, created, ⟨text, ?_, ?_⟩, ?_, hcreated, hput, ?_⟩
            · exact node_of_read (withContext_eq_ok.mp hread)
            · exact withContext_eq_ok.mp hrewrite
            · exact dropPrefix_eq_some.mp hrelative
            · exact contains_includes file rewritten.includes includes

/-- The entry is a file of the disk, with its rewrite for content. -/
def Wrote (self : Rewriter) (lexer : Lexer) (disk : Disk) (package : Package)
    (entry : Place × List UInt8) : Prop :=
  ∃ rewritten, Transcribed self lexer disk package (package.dir ++ entry.1) rewritten ∧
    rewritten.text = entry.2

/-- The sources are written to the bundle, and their includes are recorded. -/
theorem copySources_ok {files : List Place} {target target' : Target}
    {includes includes' : Includes} {stored : List (Place × List UInt8)}
    (h : copySources self lexer disk package out files target includes = .ok (target', includes'))
    (hstores : target.Stores stored)
    (hwrote : ∀ entry ∈ stored, Wrote self lexer disk package entry) :
    (∃ stored', target'.Stores stored' ∧ ∀ entry, entry ∈ stored' ↔ entry ∈ stored ∨
      package.dir ++ entry.1 ∈ files ∧ Wrote self lexer disk package entry) ∧
    (∀ file ∈ files, package.dir <+: file ∧
      ∃ rewritten, Transcribed self lexer disk package file rewritten) ∧
    ∀ path, includes'.contains path = true ↔ includes.contains path = true ∨
      ∃ file ∈ files, ∃ rewritten, Transcribed self lexer disk package file rewritten ∧
        path ∈ pathsOf file rewritten := by
  induction files generalizing target includes stored with
  | nil =>
    obtain ⟨rfl, rfl⟩ := Prod.mk.inj (Except.ok.inj h)
    refine ⟨⟨stored, hstores, fun entry => ?_⟩, fun file hfile => absurd hfile List.not_mem_nil,
      fun path => ?_⟩
    · simp
    · simp
  | cons file files ih =>
    unfold copySources at h
    split at h
    · cases h
    · rename_i next includes₁ hcopy
      obtain ⟨rewritten, relative, created, hfile, rfl, hcreated, hput, hincludes⟩ :=
        copySource_ok hcopy
      have hnew : ∀ entry : Place × List UInt8, entry = (relative, rewritten.text) ↔
          package.dir ++ entry.1 = package.dir ++ relative ∧
            Wrote self lexer disk package entry := by
        intro entry
        constructor
        · intro hentry
          rw [hentry]
          exact ⟨rfl, rewritten, hfile, rfl⟩
        · intro hentry
          obtain ⟨hpath, other, hother, htext⟩ := hentry
          rw [hpath] at hother
          rw [hother.unique hfile] at htext
          exact Prod.ext (List.append_cancel_left hpath) htext.symm
      have hnext := hstores.write hcreated hput fun other hother =>
        congrArg Prod.snd ((hnew (relative, other)).mpr ⟨rfl, hwrote _ hother⟩)
      have hall : ∀ entry ∈ stored ++ [(relative, rewritten.text)],
          Wrote self lexer disk package entry := by
        intro entry hentry
        rcases List.mem_append.mp hentry with hold | hlast
        · exact hwrote entry hold
        · exact ((hnew entry).mp (List.mem_singleton.mp hlast)).2
      obtain ⟨⟨stored', hstores', hmem⟩, hfiles, hpaths⟩ := ih h hnext hall
      refine ⟨⟨stored', hstores', fun entry => ?_⟩, ?_, fun path => ?_⟩
      · rw [hmem, List.mem_append, List.mem_singleton, hnew, List.mem_cons, or_assoc, or_and_right]
      · exact List.forall_mem_cons.mpr ⟨⟨List.prefix_append _ _, rewritten, hfile⟩, hfiles⟩
      · have hfirst : path ∈ pathsOf (package.dir ++ relative) rewritten ↔
            ∃ other, Transcribed self lexer disk package (package.dir ++ relative) other ∧
              path ∈ pathsOf (package.dir ++ relative) other := by
          constructor
          · exact fun hpath => ⟨rewritten, hfile, hpath⟩
          · intro hpath
            obtain ⟨other, hother, hpath⟩ := hpath
            rwa [hother.unique hfile] at hpath
        rw [hpaths, hincludes, hfirst, or_assoc]
        simp only [List.exists_mem_cons_iff]

/-! ## Includes -/

/-- The entry is a file of the disk beside the sources, with its own content. -/
def Fetched (disk : Disk) (package : Package) (entry : Place × List UInt8) : Prop :=
  ¬ package.srcDir <+: package.dir ++ entry.1 ∧
    disk.root.node (package.dir ++ entry.1) = some (.file entry.2)

/-- The included files beside the sources are copied to the bundle. -/
theorem copyIncludes_ok {entries : List (Place × String)} {target target' : Target}
    {stored : List (Place × List UInt8)}
    (h : copyIncludes disk package out entries target = .ok target')
    (hstores : target.Stores stored)
    (houtside : ∀ entry ∈ stored, ¬ package.srcDir <+: package.dir ++ entry.1 →
      Fetched disk package entry) :
    (∃ stored', target'.Stores stored' ∧ ∀ entry, entry ∈ stored' ↔ entry ∈ stored ∨
      package.dir ++ entry.1 ∈ entries.map Prod.fst ∧ Fetched disk package entry) ∧
    ∀ path ∈ entries.map Prod.fst, ¬ package.srcDir <+: path → package.dir <+: path ∧
      ∃ content, disk.root.node path = some (.file content) := by
  induction entries generalizing target stored with
  | nil =>
    obtain rfl := Except.ok.inj h
    exact ⟨⟨stored, hstores, fun entry => by simp⟩, fun path hpath => absurd hpath List.not_mem_nil⟩
  | cons first entries ih =>
    obtain ⟨path, included⟩ := first
    unfold copyIncludes at h
    split at h
    · -- a path below the sources is left out
      rename_i hbelow
      obtain ⟨⟨stored', hstores', hmem⟩, hpaths⟩ := ih h hstores houtside
      refine ⟨⟨stored', hstores', fun entry => ?_⟩, ?_⟩
      · rw [hmem, List.map_cons, List.mem_cons, or_and_right, or_iff_right (a := _ ∧ _)]
        intro hentry
        exact hentry.2.1 (hentry.1 ▸ hbelow)
      · rw [List.map_cons]
        exact List.forall_mem_cons.mpr ⟨fun hnot => absurd hbelow hnot, hpaths⟩
    · rename_i hbeside
      split at h
      · cases h
      · rename_i relative hrelative
        obtain rfl := dropPrefix_eq_some.mp hrelative
        split at h
        · cases h
        · rename_i created hcreated
          split at h
          · rename_i content hcontent
            split at h
            · cases h
            · rename_i next hput
              have hnew : ∀ entry : Place × List UInt8, entry = (relative, content) ↔
                  package.dir ++ entry.1 = package.dir ++ relative ∧
                    Fetched disk package entry := by
                intro entry
                constructor
                · intro hentry
                  rw [hentry]
                  exact ⟨rfl, hbeside, hcontent⟩
                · intro hentry
                  obtain ⟨hpath, _, hheld⟩ := hentry
                  rw [hpath, hcontent] at hheld
                  exact Prod.ext (List.append_cancel_left hpath)
                    (FileTree.Node.file.inj (Option.some.inj hheld)).symm
              have hnext := hstores.write (createParent_ok hcreated) hput fun other hother =>
                congrArg Prod.snd
                  ((hnew (relative, other)).mpr ⟨rfl, houtside _ hother hbeside⟩)
              have hall : ∀ entry ∈ stored ++ [(relative, content)],
                  ¬ package.srcDir <+: package.dir ++ entry.1 → Fetched disk package entry := by
                intro entry hentry
                rcases List.mem_append.mp hentry with hold | hlast
                · exact houtside entry hold
                · exact fun _ => ((hnew entry).mp (List.mem_singleton.mp hlast)).2
              obtain ⟨⟨stored', hstores', hmem⟩, hpaths⟩ := ih h hnext hall
              refine ⟨⟨stored', hstores', fun entry => ?_⟩, ?_⟩
              · rw [hmem, List.mem_append, List.mem_singleton, hnew, List.map_cons, List.mem_cons,
                  or_assoc, or_and_right]
              · rw [List.map_cons]
                exact List.forall_mem_cons.mpr
                  ⟨fun _ => ⟨List.prefix_append _ _, content, hcontent⟩, hpaths⟩
          · cases h

/-! ## The package -/

/-- An include of a source names the path. -/
def Included (self : Rewriter) (lexer : Lexer) (disk : Disk) (package : Package) (path : Place) :
    Prop :=
  ∃ file rewritten, IsSource disk package file ∧
    Transcribed self lexer disk package file rewritten ∧ path ∈ pathsOf file rewritten

/-- The path is a source, or an include names it beside the sources. -/
def IsCopied (self : Rewriter) (lexer : Lexer) (disk : Disk) (package : Package) (path : Place) :
    Prop :=
  IsSource disk package path ∨
    Included self lexer disk package path ∧ ¬ package.srcDir <+: path

/-- The directory of a crate in the bundle: the rewrites of the sources, and the included files from
    beside them. -/
structure Copies (rewriter : Rewriter) (lexer : Lexer) (disk : Disk) (package : Package)
    (bundle : Target) : Prop where
  transcribed : ∀ file, IsSource disk package file →
    ∃ rewritten, Transcribed rewriter lexer disk package file rewritten
  files : ∀ relative content, bundle.node relative = some (.file content) ↔
    IsSource disk package (package.dir ++ relative) ∧
        Wrote rewriter lexer disk package (relative, content) ∨
      Included rewriter lexer disk package (package.dir ++ relative) ∧
        Fetched disk package (relative, content)
  dirs : ∀ relative, bundle.node relative = some .dir ↔ relative = [] ∨
    ∃ other, IsCopied rewriter lexer disk package (package.dir ++ other) ∧
      relative <+: other ∧ relative ≠ other

/-- What stands in the bundle after a crate is copied. -/
theorem copyPackage_ok {bundle : Target}
    (h : copyPackage self lexer disk package out = .ok bundle) :
    Copies self lexer disk package bundle := by
  unfold copyPackage at h
  split at h
  · cases h
  · rename_i files hfiles
    split at h
    · cases h
    · rename_i target includes hsources
      obtain ⟨⟨written, hwritten, hmem⟩, htranscribed, hpaths⟩ :=
        copySources_ok hsources FileTree.stores_nil fun entry hentry =>
          absurd hentry List.not_mem_nil
      have hsource : ∀ file, file ∈ files ↔ IsSource disk package file := by
        intro file
        have hlisted := mem_rustFiles (withContext_eq_ok.mp hfiles) file
        refine ⟨fun hfile => ?_, hlisted.1⟩
        obtain ⟨_, _, text, hnode, _⟩ := htranscribed file hfile
        exact ⟨(hlisted.2 hfile).1, (hlisted.2 hfile).2, text, hnode⟩
      have hincluded : ∀ path, path ∈ includes.sorted.map Prod.fst ↔
          Included self lexer disk package path := by
        intro path
        have hcontains : path ∈ includes.sorted.map Prod.fst ↔ includes.contains path = true := by
          rw [KeyMap.contains_iff, List.mem_map]
          simp only [KeyMap.mem_sorted]
        rw [hcontains, hpaths]
        constructor
        · intro hpath
          rcases hpath with hnone | ⟨file, hfile, rewritten, hrewritten, hpath⟩
          · cases hnone
          · exact ⟨file, rewritten, (hsource file).mp hfile, hrewritten, hpath⟩
        · intro hpath
          obtain ⟨file, rewritten, hfile, hrewritten, hpath⟩ := hpath
          exact Or.inr ⟨file, (hsource file).mpr hfile, rewritten, hrewritten, hpath⟩
      have hbelow : ∀ entry ∈ written, ¬ package.srcDir <+: package.dir ++ entry.1 →
          Fetched disk package entry := by
        intro entry hentry hbeside
        have hfile := ((hmem entry).mp hentry).resolve_left List.not_mem_nil
        exact absurd ((hsource _).mp hfile.1).1 hbeside
      obtain ⟨⟨stored, hstored, hentries⟩, hfetched⟩ := copyIncludes_ok h hwritten hbelow
      have hall : ∀ entry, entry ∈ stored ↔
          IsSource disk package (package.dir ++ entry.1) ∧ Wrote self lexer disk package entry ∨
            Included self lexer disk package (package.dir ++ entry.1) ∧
              Fetched disk package entry := by
        intro entry
        rw [hentries, hmem, or_iff_right List.not_mem_nil, hsource, hincluded]
      refine ⟨fun file hfile => (htranscribed file ((hsource file).mpr hfile)).2,
        fun relative content => ?_, fun relative => ?_⟩
      · rw [hstored.files, hall]
      · rw [hstored.dirs]
        refine or_congr_right ⟨fun hentry => ?_, fun hother => ?_⟩
        · obtain ⟨entry, hentry, habove⟩ := hentry
          refine ⟨entry.1, ?_, habove⟩
          rcases (hall entry).mp hentry with ⟨hfile, _⟩ | ⟨hpath, hbeside, _⟩
          · exact Or.inl hfile
          · exact Or.inr ⟨hpath, hbeside⟩
        · obtain ⟨other, hcopied, habove⟩ := hother
          rcases hcopied with hfile | ⟨hpath, hbeside⟩
          · obtain ⟨_, rewritten, hrewritten⟩ := htranscribed _ ((hsource _).mpr hfile)
            exact ⟨(other, rewritten.text),
              (hall _).mpr (Or.inl ⟨hfile, rewritten, hrewritten, rfl⟩), habove⟩
          · obtain ⟨_, content, hcontent⟩ := hfetched _ ((hincluded _).mpr hpath) hbeside
            exact ⟨(other, content), (hall _).mpr (Or.inr ⟨hpath, hbeside, hcontent⟩), habove⟩

end Bundle

end Stiles
