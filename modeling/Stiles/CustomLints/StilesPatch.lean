import Mathlib.Data.Finset.Insert
import Stiles.General.Toml
import Stiles.Types.Errors
import Stiles.Types.PathComponents

/-
  Pointing the stiles crates of a lint package at a local source (`stiles_patch.rs`).

  `plan_patches` reads which stiles crates the packages take from which source, and `config` writes
  one patch as a TOML assignment. The JSON of cargo is read by serde, a parameter of the model.

  `SourceId` is what a manifest names as a source, before cargo writes it as one text.

  * `patchTable_id`: the table that is read from the text of a source.
  * `config_read_iff`: when an assignment is read as what it was written from.
  * `roundTrips_iff`: when all patches of a plan are.
-/

namespace Stiles

def STILES_CRATES : List String :=
  ["stiles-types", "stiles-plugin", "stiles-rust", "stiles-typescript", "stiles-testing"]

def CRATES_IO : String := "registry+https://github.com/rust-lang/crates.io-index"

/-- The table of `[patch]` that replaces a crate of one source. -/
inductive PatchTable where
  | CratesIo
  | Git (url : String)
deriving DecidableEq, Repr

structure StilesPatch where
  table : PatchTable
  crateName : String
deriving DecidableEq, Repr

namespace StilesPatch

/-- The path of the crate in a checkout of stiles. -/
def path (patch : StilesPatch) (source : FilePath) : FilePath :=
  (source.join ⟨"crates"⟩).join ⟨patch.crateName⟩

/-- The `--config` value that points the crate at `source`. -/
def config (patch : StilesPatch) (source : FilePath) : String :=
  match patch.table with
  | .CratesIo =>
    "patch.crates-io." ++ patch.crateName ++ ".path='" ++ (patch.path source).text ++ "'"
  | .Git url =>
    "patch.'" ++ url ++ "'." ++ patch.crateName ++ ".path='" ++ (patch.path source).text ++ "'"

end StilesPatch

/-! ## The plan -/

namespace StilesPatch

/-- A dependency, as `cargo metadata` writes it. -/
structure Dependency where
  name : String
  source : Option String
deriving DecidableEq, Repr

structure Package where
  dependencies : List Dependency
deriving DecidableEq, Repr

structure Metadata where
  packages : List Package
deriving DecidableEq, Repr

/-- The table that replaces a crate of `source`. -/
def patchTable (source : String) : Option PatchTable :=
  if source = CRATES_IO then some .CratesIo
  else
    match source.toList with
    | 'g' :: 'i' :: 't' :: '+' :: url =>
      some (.Git (String.ofList (url.takeWhile fun c => c ≠ '?' && c ≠ '#')))
    | _ => none

/-- The body of the loop over the dependencies. -/
def planOne (patches : Finset StilesPatch) (dependency : Dependency) : Finset StilesPatch :=
  match STILES_CRATES.find? fun known => known = dependency.name with
  | none => patches
  | some crateName =>
    match dependency.source.bind patchTable with
    | none => patches
    | some table => insert { table, crateName } patches

/-- `serde_json::from_str` is a parameter. -/
def planPatches (parse : String → AnyhowResult Metadata) (metadata : String) :
    AnyhowResult (Finset StilesPatch) :=
  match withContext "failed to parse the metadata" (parse metadata) with
  | .error e => .error e
  | .ok metadata =>
    .ok (metadata.packages.foldl (fun patches package =>
      package.dependencies.foldl planOne patches) ∅)

end StilesPatch

/-! ## What the packages name -/

/-- How a registry is reached. -/
inductive Protocol where
  | Registry
  | Sparse
  | LocalRegistry
  | Directory
deriving DecidableEq, Repr

def Protocol.name : Protocol → String
  | .Registry => "registry"
  | .Sparse => "sparse"
  | .LocalRegistry => "local-registry"
  | .Directory => "directory"

/-- The source of a dependency, as its package spells it. -/
inductive SourceId where
  | Index (protocol : Protocol) (url : String)
  /-- A repository with the branch, tag or revision, and the commit that it stands for. -/
  | Git (url : String) (reference precise : Option String)
deriving DecidableEq, Repr

namespace SourceId

/-- The text that cargo writes for a source. -/
def text : SourceId → String
  | .Index protocol url => protocol.name ++ "+" ++ url
  | .Git url reference precise =>
    "git+" ++ url ++ (reference.map ("?" ++ ·)).getD "" ++ (precise.map ("#" ++ ·)).getD ""

/-- The table of `[patch]` for a crate of the source: crates.io and repositories have one. -/
def table : SourceId → Option PatchTable
  | .Index protocol url => if (Index protocol url).text = CRATES_IO then some .CratesIo else none
  | .Git url _ _ => some (.Git url)

end SourceId

namespace StilesPatch

/-- What the packages of a workspace declare: each dependency with its source, unless it is a path. -/
abbrev Declared := List (List (String × Option SourceId))

/-- The metadata that cargo writes for what is declared. -/
def metadataOf (declared : Declared) : Metadata where
  packages := declared.map fun package =>
    { dependencies := package.map fun dependency =>
        { name := dependency.1, source := dependency.2.map SourceId.text } }

/-- A package takes the stiles crate from the source of this table. -/
def Wanted (declared : Declared) (table : PatchTable) (crateName : String) : Prop :=
  crateName ∈ STILES_CRATES ∧ ∃ package ∈ declared, ∃ dependency ∈ package,
    dependency.1 = crateName ∧ dependency.2.bind SourceId.table = some table

/-- The key of a table under `[patch]`. -/
def key : PatchTable → String
  | .CratesIo => "crates-io"
  | .Git url => url

/-- The patches are those that are wanted, and each assignment is read as what it was written from. -/
def RoundTrips (source : FilePath) (declared : Declared) (patches : Finset StilesPatch) : Prop :=
  (∀ patch, patch ∈ patches ↔ Wanted declared patch.table patch.crateName) ∧
    ∀ patch ∈ patches, Toml.assignment (patch.config source)
      = some (["patch", key patch.table, patch.crateName, "path"], (patch.path source).text)

/-- The characters of a text are those of a literal string: no quote and no control character but
    the tab. -/
def Literal (text : String) : Prop :=
  ∀ c ∈ text.toList, Toml.isLiteralChar c = true

/-- The path and the repositories can stand between quotes as they are, and a URL has nothing at
    which it is cut. -/
def Writable (source : FilePath) (declared : Declared) : Prop :=
  ∀ table crateName, Wanted declared table crateName → Literal source.text ∧
    ∀ url, table = .Git url → Literal url ∧ '?' ∉ url.toList ∧ '#' ∉ url.toList

/-! ## Sources -/

/-- The part of a URL that is kept. -/
def cutUrl (url : String) : String :=
  String.ofList (url.toList.takeWhile fun c => c ≠ '?' && c ≠ '#')

def cut : PatchTable → PatchTable
  | .CratesIo => .CratesIo
  | .Git url => .Git (cutUrl url)

theorem cutUrl_eq_self_iff {url : String} :
    cutUrl url = url ↔ '?' ∉ url.toList ∧ '#' ∉ url.toList := by
  unfold cutUrl
  rw [← String.toList_inj, String.toList_ofList, List.takeWhile_eq_self_iff]
  constructor
  · intro h
    refine ⟨fun hmark => ?_, fun hhash => ?_⟩
    · exact absurd (h _ hmark) (by decide)
    · exact absurd (h _ hhash) (by decide)
  · intro h c hc
    have hmark : c ≠ '?' := fun heq => h.1 (heq ▸ hc)
    have hhash : c ≠ '#' := fun heq => h.2 (heq ▸ hc)
    rw [decide_eq_true hmark, decide_eq_true hhash]
    rfl

/-- The cut URL of a repository. -/
theorem cutUrl_kept (url : String) : '?' ∉ (cutUrl url).toList ∧ '#' ∉ (cutUrl url).toList := by
  unfold cutUrl
  rw [String.toList_ofList]
  refine ⟨fun hmark => ?_, fun hhash => ?_⟩
  · exact absurd (List.mem_takeWhile_imp hmark) (by decide)
  · exact absurd (List.mem_takeWhile_imp hhash) (by decide)

/-- What follows a URL in the text of a repository starts with a mark. -/
theorem git_text (url : String) (reference precise : Option String) : ∃ tail : List Char,
    (SourceId.Git url reference precise).text.toList
      = 'g' :: 'i' :: 't' :: '+' :: (url.toList ++ tail) ∧
    ∀ c, tail.head? = some c → c = '?' ∨ c = '#' := by
  refine ⟨((reference.map ("?" ++ ·)).getD "").toList ++ ((precise.map ("#" ++ ·)).getD "").toList,
    ?_, fun c hc => ?_⟩
  · simp [SourceId.text]
  · cases reference with
    | some reference =>
      left
      simpa using hc.symm
    | none =>
      cases precise with
      | some precise =>
        right
        simpa using hc.symm
      | none => simp at hc

theorem takeWhile_marked {url tail : List Char}
    (h : ∀ c, tail.head? = some c → c = '?' ∨ c = '#') :
    (url ++ tail).takeWhile (fun c => c ≠ '?' && c ≠ '#')
      = url.takeWhile fun c => c ≠ '?' && c ≠ '#' := by
  induction url with
  | nil =>
    cases tail with
    | nil => rfl
    | cons c tail =>
      refine List.takeWhile_cons_of_neg ?_
      rcases h c rfl with rfl | rfl <;> decide
  | cons c url ih => rw [List.cons_append, List.takeWhile_cons, List.takeWhile_cons, ih]

/-- The table that is read from the text of a source. -/
theorem patchTable_text (source : SourceId) :
    patchTable source.text = source.table.map cut := by
  cases source with
  | Index protocol url =>
    have htable : (SourceId.Index protocol url).table
        = if (SourceId.Index protocol url).text = CRATES_IO then some .CratesIo else none := rfl
    unfold patchTable
    rw [htable]
    by_cases hindex : (SourceId.Index protocol url).text = CRATES_IO
    · rw [if_pos hindex, if_pos hindex]
      rfl
    · have htext : (SourceId.Index protocol url).text.toList
          = protocol.name.toList ++ '+' :: url.toList := by
        simp [SourceId.text]
      rw [if_neg hindex, if_neg hindex, htext]
      cases protocol with
      | Registry => simp [Protocol.name]
      | Sparse => simp [Protocol.name]
      | LocalRegistry => simp [Protocol.name]
      | Directory => simp [Protocol.name]
  | Git url reference precise =>
    obtain ⟨tail, htext, hhead⟩ := git_text url reference precise
    have hne : (SourceId.Git url reference precise).text ≠ CRATES_IO := by
      intro heq
      have hfirst := congrArg (fun text : String => text.toList.head?) heq
      simp [htext, CRATES_IO] at hfirst
    unfold patchTable
    rw [if_neg hne, htext]
    show some (PatchTable.Git (String.ofList _)) = some (.Git (cutUrl url))
    rw [takeWhile_marked hhead, cutUrl]

/-! ## The plan of what is declared -/

/-- What one dependency adds. -/
theorem mem_planOne {patches : Finset StilesPatch} {dependency : Dependency} {patch : StilesPatch} :
    patch ∈ planOne patches dependency ↔ patch ∈ patches ∨
      (patch.crateName ∈ STILES_CRATES ∧ dependency.name = patch.crateName ∧
        dependency.source.bind patchTable = some patch.table) := by
  unfold planOne
  cases hfind : STILES_CRATES.find? fun known => known = dependency.name with
  | none =>
    refine ⟨Or.inl, fun h => h.resolve_right fun hnew => ?_⟩
    obtain ⟨hcrate, hname, _⟩ := hnew
    have hnot := List.find?_eq_none.mp hfind _ hcrate
    exact hnot (decide_eq_true hname.symm)
  | some crateName =>
    have hname : crateName = dependency.name := by simpa using List.find?_some hfind
    have hcrate := List.mem_of_find?_eq_some hfind
    obtain ⟨table, patched⟩ := patch
    cases htable : dependency.source.bind patchTable with
    | none =>
      refine ⟨Or.inl, fun h => h.resolve_right fun hnew => ?_⟩
      cases hnew.2.2
    | some found =>
      show (⟨table, patched⟩ : StilesPatch) ∈ insert _ patches ↔ _
      rw [Finset.mem_insert, or_comm]
      refine or_congr_right ?_
      constructor
      · intro heq
        obtain ⟨rfl, rfl⟩ := StilesPatch.mk.inj heq
        exact ⟨hcrate, hname.symm, rfl⟩
      · intro hnew
        obtain ⟨_, hsame, hfound⟩ := hnew
        obtain rfl := Option.some.inj hfound
        rw [hname, hsame]

theorem mem_foldl_planOne {patches : Finset StilesPatch} {dependencies : List Dependency}
    {patch : StilesPatch} : patch ∈ dependencies.foldl planOne patches ↔ patch ∈ patches ∨
      ∃ dependency ∈ dependencies, patch.crateName ∈ STILES_CRATES ∧
        dependency.name = patch.crateName ∧
        dependency.source.bind patchTable = some patch.table := by
  induction dependencies generalizing patches with
  | nil => simp
  | cons dependency dependencies ih =>
    rw [List.foldl_cons, ih, mem_planOne, List.exists_mem_cons_iff, or_assoc]

theorem mem_plan {packages : List Package} {patches : Finset StilesPatch} {patch : StilesPatch} :
    patch ∈ packages.foldl (fun patches package => package.dependencies.foldl planOne patches)
        patches ↔ patch ∈ patches ∨
      ∃ package ∈ packages, ∃ dependency ∈ package.dependencies,
        patch.crateName ∈ STILES_CRATES ∧ dependency.name = patch.crateName ∧
          dependency.source.bind patchTable = some patch.table := by
  induction packages generalizing patches with
  | nil => simp
  | cons package packages ih =>
    rw [List.foldl_cons, ih, mem_foldl_planOne, List.exists_mem_cons_iff, or_assoc]

/-- The patches of a plan: those that are wanted, with the URLs cut. -/
theorem planPatches_eq {parse : String → AnyhowResult Metadata} {metadata : String}
    {declared : Declared} (h : parse metadata = .ok (metadataOf declared)) :
    ∃ patches, planPatches parse metadata = .ok patches ∧ ∀ patch, patch ∈ patches ↔
      ∃ table, Wanted declared table patch.crateName ∧ cut table = patch.table := by
  have hplan : planPatches parse metadata = .ok ((metadataOf declared).packages.foldl
      (fun patches package => package.dependencies.foldl planOne patches) ∅) := by
    unfold planPatches
    rw [h]
    rfl
  refine ⟨_, hplan, fun patch => ?_⟩
  rw [mem_plan, or_iff_right (Finset.notMem_empty patch)]
  constructor
  · intro hplanned
    obtain ⟨_, hpackage, _, hdependency, hcrate, hname, htable⟩ := hplanned
    obtain ⟨package, hdeclared, rfl⟩ := List.mem_map.mp hpackage
    obtain ⟨dependency, hmem, rfl⟩ := List.mem_map.mp hdependency
    obtain ⟨text, htext, hread⟩ := Option.bind_eq_some_iff.mp htable
    obtain ⟨source, hsource, rfl⟩ := Option.map_eq_some_iff.mp htext
    rw [patchTable_text] at hread
    obtain ⟨table, hown, hcut⟩ := Option.map_eq_some_iff.mp hread
    refine ⟨table, ⟨hcrate, package, hdeclared, dependency, hmem, hname, ?_⟩, hcut⟩
    exact Option.bind_eq_some_iff.mpr ⟨source, hsource, hown⟩
  · intro hwanted
    obtain ⟨table, ⟨hcrate, package, hpackage, dependency, hdependency, hname, htable⟩, hcut⟩ :=
      hwanted
    obtain ⟨source, hsource, hown⟩ := Option.bind_eq_some_iff.mp htable
    refine ⟨_, List.mem_map_of_mem hpackage, _, List.mem_map_of_mem hdependency, hcrate, hname, ?_⟩
    show (dependency.2.map SourceId.text).bind patchTable = some patch.table
    rw [hsource]
    show patchTable source.text = some patch.table
    rw [patchTable_text, hown, ← hcut]
    rfl

/-! ## Assignments that are read back -/

theorem literal_of_all {text : String} (h : text.toList.all Toml.isLiteralChar = true) :
    Literal text := List.all_eq_true.mp h

theorem bare_of_crate : ∀ crateName ∈ STILES_CRATES, crateName.toList ≠ [] ∧
    (∀ c ∈ crateName.toList, Toml.isBare c = true) ∧ Literal crateName ∧
    (⟨crateName⟩ : FilePath).isAbsolute = false := by
  have hall : ∀ crateName ∈ STILES_CRATES, crateName.toList ≠ [] ∧
      crateName.toList.all Toml.isBare = true ∧ crateName.toList.all Toml.isLiteralChar = true ∧
      (⟨crateName⟩ : FilePath).isAbsolute = false := by decide
  intro crateName hcrate
  obtain ⟨hne, hbare, hliteral, hrelative⟩ := hall crateName hcrate
  exact ⟨hne, List.all_eq_true.mp hbare, literal_of_all hliteral, hrelative⟩

theorem literal_join {base other : FilePath} (hother : other.isAbsolute = false)
    (hliteral : Literal other.text) : Literal (base.join other).text ↔ Literal base.text := by
  have hslash : Literal "/" := literal_of_all (by decide)
  have happend : ∀ {a b : String}, Literal b → (Literal (a ++ b) ↔ Literal a) := by
    intro a b hb
    unfold Literal at hb ⊢
    rw [String.toList_append]
    constructor
    · exact fun h c hc => h c (List.mem_append_left _ hc)
    · intro h c hc
      rcases List.mem_append.mp hc with hfront | hback
      · exact h c hfront
      · exact hb c hback
  rw [FilePath.join, hother, if_neg Bool.false_ne_true]
  split
  · exact happend hliteral
  · exact (happend hliteral).trans (happend hslash)

theorem literal_path {patch : StilesPatch} (hcrate : patch.crateName ∈ STILES_CRATES)
    (source : FilePath) : Literal (patch.path source).text ↔ Literal source.text := by
  obtain ⟨_, _, hliteral, hrelative⟩ := bare_of_crate _ hcrate
  have hcrates : Literal "crates" := literal_of_all (by decide)
  unfold path
  rw [literal_join hrelative hliteral, literal_join (by decide) hcrates]

theorem bare_words : (∀ c ∈ "patch".toList, Toml.isBare c = true) ∧
    (∀ c ∈ "crates-io".toList, Toml.isBare c = true) ∧
      ∀ c ∈ "path".toList, Toml.isBare c = true :=
  ⟨List.all_eq_true.mp (by decide), List.all_eq_true.mp (by decide),
    List.all_eq_true.mp (by decide)⟩

/-- The characters of an assignment behind the table. -/
def pointed (crateName value : List Char) : List Char :=
  crateName ++ '.' :: ("path".toList ++ '=' :: '\'' :: (value ++ ['\'']))

/-- The characters of an assignment. `written` is the key of the table, as it stands in the text. -/
def spliced (written crateName value : List Char) : List Char :=
  "patch".toList ++ '.' :: (written ++ '.' :: pointed crateName value)

theorem config_crates_io (crateName : String) (source : FilePath) :
    (config ⟨.CratesIo, crateName⟩ source).toList = spliced "crates-io".toList crateName.toList
      (path ⟨.CratesIo, crateName⟩ source).text.toList := by
  simp [config, spliced, pointed]

theorem config_git (url crateName : String) (source : FilePath) :
    (config ⟨.Git url, crateName⟩ source).toList = spliced ('\'' :: (url.toList ++ ['\'']))
      crateName.toList (path ⟨.Git url, crateName⟩ source).text.toList := by
  simp [config, spliced, pointed]

/-- A text that is long enough for its four keys. -/
theorem spliced_length (written crateName value : List Char) :
    ∃ fuel, (spliced written crateName value).length = fuel + 4 := by
  refine Nat.exists_eq_add_of_le' ?_
  simp only [spliced, pointed, List.length_append, List.length_cons, List.length_nil]
  omega

/-- The keys of an assignment behind its first two. -/
theorem dottedKeys_rest {crateName : String} (hcrate : crateName ∈ STILES_CRATES) (fuel : Nat)
    (value : List Char) : Toml.dottedKeys (fuel + 2) (pointed crateName.toList value)
      = some ([crateName.toList, "path".toList], '=' :: '\'' :: (value ++ ['\''])) := by
  obtain ⟨hne, hbare, _⟩ := bare_of_crate crateName hcrate
  have hpath : "path".toList ≠ [] := by decide
  unfold pointed
  rw [Toml.dottedKeys_bare hbare hne, Toml.dottedKeys_last bare_words.2.2 hpath]
  rfl

/-- An assignment is read as what it was written from exactly if its path and its URL are literal. -/
theorem config_read_iff {patch : StilesPatch} (hcrate : patch.crateName ∈ STILES_CRATES)
    (source : FilePath) : Toml.assignment (patch.config source)
        = some (["patch", key patch.table, patch.crateName, "path"], (patch.path source).text) ↔
      Literal source.text ∧ ∀ url, patch.table = .Git url → Literal url := by
  have hpatch : "patch".toList ≠ [] := by decide
  have hcratesIo : "crates-io".toList ≠ [] := by decide
  obtain ⟨table, crateName⟩ := patch
  rw [← literal_path hcrate source]
  cases table with
  | CratesIo =>
    have htext := config_crates_io crateName source
    obtain ⟨fuel, hfuel⟩ := spliced_length "crates-io".toList crateName.toList
      (path ⟨.CratesIo, crateName⟩ source).text.toList
    have hkeys : Toml.dottedKeys (config ⟨.CratesIo, crateName⟩ source).toList.length
        (config ⟨.CratesIo, crateName⟩ source).toList
        = some (["patch".toList, "crates-io".toList, crateName.toList, "path".toList],
          '=' :: '\'' :: ((path ⟨.CratesIo, crateName⟩ source).text.toList ++ ['\''])) := by
      rw [htext, hfuel, spliced, Toml.dottedKeys_bare bare_words.1 hpatch,
        Toml.dottedKeys_bare bare_words.2.1 hcratesIo, dottedKeys_rest hcrate]
      rfl
    have hread := Toml.assignment_quoted hkeys
    simp only [List.map_cons, List.map_nil, String.ofList_toList] at hread
    refine hread.trans ⟨fun h => ⟨h, fun url hurl => ?_⟩, fun h => h.1⟩
    cases hurl
  | Git url =>
    have htext := config_git url crateName source
    obtain ⟨fuel, hfuel⟩ := spliced_length ('\'' :: (url.toList ++ ['\''])) crateName.toList
      (path ⟨.Git url, crateName⟩ source).text.toList
    have hfirst : Toml.dottedKeys (config ⟨.Git url, crateName⟩ source).toList.length
        (config ⟨.Git url, crateName⟩ source).toList
        = (Toml.dottedKeys (fuel + 3) ('\'' :: (url.toList ++ '\'' :: '.' ::
          pointed crateName.toList (path ⟨.Git url, crateName⟩ source).text.toList))).map
          fun read => ("patch".toList :: read.1, read.2) := by
      rw [htext, hfuel, spliced, Toml.dottedKeys_bare bare_words.1 hpatch, List.cons_append,
        List.append_assoc]
      rfl
    have hliteral : Literal url → (Toml.assignment (config ⟨.Git url, crateName⟩ source)
        = some (["patch", url, crateName, "path"], (path ⟨.Git url, crateName⟩ source).text) ↔
          Literal (path ⟨.Git url, crateName⟩ source).text) := by
      intro hurl
      have hkeys := hfirst
      rw [Toml.dottedKeys_literal hurl, dottedKeys_rest hcrate] at hkeys
      have hread := Toml.assignment_quoted hkeys
      simp only [List.map_cons, List.map_nil, String.ofList_toList] at hread
      exact hread
    constructor
    · intro hread
      have hurl : Literal url := by
        obtain ⟨names, rest, hnames, hkeys⟩ := Toml.keys_of_assignment hread
        rw [hfirst] at hnames
        obtain ⟨⟨inner, tail⟩, hinner, hnames⟩ := Option.map_eq_some_iff.mp hnames
        obtain ⟨rfl, rfl⟩ := Prod.mk.inj hnames
        cases inner with
        | nil => cases hkeys
        | cons second inner =>
          have hsecond : String.ofList second = url :=
            (List.cons.inj (List.cons.inj hkeys).2).1
          have hquoted := Toml.dottedKeys_quoted hinner
          rw [← hsecond, Literal, String.toList_ofList]
          exact hquoted
      refine ⟨(hliteral hurl).mp hread, fun other hother => ?_⟩
      obtain rfl := PatchTable.Git.inj hother
      exact hurl
    · intro h
      exact (hliteral (h.2 url rfl)).mpr h.1

/-- The patches of a plan are read as what was declared exactly if the path and the URLs can be
    written as they are. -/
theorem roundTrips_iff {parse : String → AnyhowResult Metadata} {metadata : String}
    {declared : Declared} (h : parse metadata = .ok (metadataOf declared)) (source : FilePath) :
    ∃ patches, planPatches parse metadata = .ok patches ∧
      (RoundTrips source declared patches ↔ Writable source declared) := by
  obtain ⟨patches, hplan, hmem⟩ := planPatches_eq h
  refine ⟨patches, hplan, ?_⟩
  constructor
  · intro hround table crateName hwanted
    have hpatch := (hround.1 ⟨table, crateName⟩).mpr hwanted
    have hread := (config_read_iff hwanted.1 source).mp (hround.2 _ hpatch)
    refine ⟨hread.1, fun url hurl => ⟨hread.2 url hurl, ?_⟩⟩
    obtain ⟨own, _, hcut⟩ := (hmem _).mp hpatch
    rw [hurl] at hcut
    cases own with
    | CratesIo => cases hcut
    | Git whole =>
      rw [← PatchTable.Git.inj hcut]
      exact cutUrl_kept whole
  · intro hwritable
    have hkept : ∀ table crateName, Wanted declared table crateName → cut table = table := by
      intro table crateName hwanted
      cases table with
      | CratesIo => rfl
      | Git url =>
        have hmarks := ((hwritable _ _ hwanted).2 url rfl).2
        exact congrArg PatchTable.Git (cutUrl_eq_self_iff.mpr hmarks)
    have hwanted : ∀ patch, patch ∈ patches ↔ Wanted declared patch.table patch.crateName := by
      intro patch
      rw [hmem]
      constructor
      · intro hplanned
        obtain ⟨table, hown, hcut⟩ := hplanned
        rw [← hcut, hkept _ _ hown]
        exact hown
      · intro hown
        exact ⟨patch.table, hown, hkept _ _ hown⟩
    refine ⟨hwanted, fun patch hpatch => ?_⟩
    have hown := (hwanted patch).mp hpatch
    obtain ⟨hsource, hurls⟩ := hwritable _ _ hown
    exact (config_read_iff hown.1 source).mpr ⟨hsource, fun url hurl => (hurls url hurl).1⟩

/-- One package with one stiles crate of a repository. -/
def oneCrate : Declared :=
  [[("stiles-rust", some (.Git "https://host/stiles.git" (some "rev=4d40") none))]]

/-- What cargo writes for it. -/
def oneCrateJson : String :=
  "\x7b\"packages\":[\x7b\"dependencies\":[\x7b\"name\":\"stiles-rust\"," ++
    "\"source\":\"git+https://host/stiles.git?rev=4d40\"\x7d]\x7d]\x7d"

/-- The part of serde that reads it. -/
def readOneCrate (metadata : String) : AnyhowResult Metadata :=
  if metadata = oneCrateJson then .ok (metadataOf oneCrate) else .error (.msg "expected value")

theorem wanted_oneCrate {table : PatchTable} {crateName : String}
    (h : Wanted oneCrate table crateName) : table = .Git "https://host/stiles.git" := by
  obtain ⟨_, package, hpackage, dependency, hdependency, _, htable⟩ := h
  rw [List.mem_singleton.mp hpackage] at hdependency
  rw [List.mem_singleton.mp hdependency] at htable
  exact (Option.some.inj htable).symm

theorem readOneCrate_eq : readOneCrate oneCrateJson = .ok (metadataOf oneCrate) :=
  if_pos rfl

/-- A path and a URL that are read back. -/
theorem oneCrate_read : ∃ patches, planPatches readOneCrate oneCrateJson = .ok patches ∧
    RoundTrips ⟨"/home/stiles"⟩ oneCrate patches := by
  obtain ⟨patches, hplan, hround⟩ := roundTrips_iff readOneCrate_eq ⟨"/home/stiles"⟩
  refine ⟨patches, hplan, hround.mpr fun table crateName hwanted => ⟨?_, fun url hurl => ?_⟩⟩
  · exact literal_of_all (by decide)
  · rw [wanted_oneCrate hwanted] at hurl
    rw [← PatchTable.Git.inj hurl]
    exact ⟨literal_of_all (by decide), by decide⟩

/-- The quote in the path ends the value. -/
theorem oneCrate_misread : ∃ patches, planPatches readOneCrate oneCrateJson = .ok patches ∧
    ¬RoundTrips ⟨"/home/o'brien/stiles"⟩ oneCrate patches := by
  obtain ⟨patches, hplan, hmem⟩ := planPatches_eq readOneCrate_eq
  refine ⟨patches, hplan, fun hround => ?_⟩
  have hwanted : Wanted oneCrate (.Git "https://host/stiles.git") "stiles-rust" :=
    ⟨by decide, _, List.mem_singleton_self _, _, List.mem_singleton_self _, rfl, rfl⟩
  have hpatch : (⟨.Git "https://host/stiles.git", "stiles-rust"⟩ : StilesPatch) ∈ patches :=
    (hmem _).mpr ⟨_, hwanted, by decide⟩
  have hsource := ((config_read_iff hwanted.1 ⟨"/home/o'brien/stiles"⟩).mp
    (hround.2 _ hpatch)).1
  exact absurd (hsource '\'' (by decide)) (by decide)

end StilesPatch

end Stiles
