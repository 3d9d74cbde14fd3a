import Mathlib.Data.Prod.Lex
import Mathlib.Data.String.Basic
import Stiles.CustomLints.Digest
import Stiles.General.Framing
import Stiles.General.Keyed
import Stiles.Types.Errors
import Stiles.Types.PathPrefix

/-
  The fingerprint of the inputs that shape a crate (`fingerprint.rs`).

  What one byte does to the state is a parameter of `addBytes` and `addDirectory`: `fnv` is the hash
  of the code, and `record` keeps the bytes that it is fed.

  * `addDirectory_eq`: the fingerprint is the hash of the bytes that are fed.
  * `streams_determine`: the bytes determine the runs, and for a directory its files.
-/

namespace Stiles

/-! ## Directories -/

/-- The entries of a directory, in the order in which the file system lists them. -/
inductive Listing where
  | done
  /-- The file system fails to give an entry. -/
  | failed (error : IoError) (rest : Listing)
  | file (name : String) (contents : Except IoError (List UInt8)) (rest : Listing)
  /-- A directory, with the error of listing it if there is one. -/
  | directory (name : String) (locked : Option IoError) (below rest : Listing)

namespace Listing

def names : Listing → List String
  | .done => []
  | .failed _ rest => rest.names
  | .file name _ rest => name :: rest.names
  | .directory name _ _ rest => name :: rest.names

/-- Every entry has a name of its own in its directory. -/
def Proper : Listing → Prop
  | .done => True
  | .failed _ rest => rest.Proper
  | .file name _ rest => isPlain name = true ∧ name ∉ rest.names ∧ rest.Proper
  | .directory name _ below rest =>
    isPlain name = true ∧ name ∉ rest.names ∧ below.Proper ∧ rest.Proper

/-- A file with these contents stands behind these names. -/
def Holds : Listing → List String → List UInt8 → Prop
  | .done, _, _ => False
  | .failed _ rest, way, held => rest.Holds way held
  | .file name contents rest, way, held =>
    (way = [name] ∧ contents = .ok held) ∨ rest.Holds way held
  | .directory name _ below rest, way, held =>
    (∃ more, way = name :: more ∧ below.Holds more held) ∨ rest.Holds way held

/-- A file stands behind plain names, the first of which is listed. -/
theorem Holds.plain {listing : Listing} (h : listing.Proper) {way : List String}
    {held : List UInt8} (hheld : listing.Holds way held) :
    (∃ name ∈ listing.names, ∃ more, way = name :: more) ∧ ∀ name ∈ way, isPlain name = true := by
  induction listing generalizing way with
  | done => exact hheld.elim
  | failed _ rest ih => exact ih h hheld
  | file name contents rest ih =>
    obtain ⟨hname, _, hrest⟩ := h
    rcases hheld with ⟨rfl, _⟩ | hlater
    · exact ⟨⟨name, List.mem_cons_self, [], rfl⟩, by simpa using hname⟩
    · obtain ⟨⟨first, hfirst, hway⟩, hplain⟩ := ih hrest hlater
      exact ⟨⟨first, List.mem_cons_of_mem _ hfirst, hway⟩, hplain⟩
  | directory name _ below rest ihbelow ihrest =>
    obtain ⟨hname, _, hbelow, hrest⟩ := h
    rcases hheld with ⟨more, rfl, hinner⟩ | hlater
    · refine ⟨⟨name, List.mem_cons_self, more, rfl⟩, ?_⟩
      exact List.forall_mem_cons.mpr ⟨hname, (ihbelow hbelow hinner).2⟩
    · obtain ⟨⟨first, hfirst, hway⟩, hplain⟩ := ihrest hrest hlater
      exact ⟨⟨first, List.mem_cons_of_mem _ hfirst, hway⟩, hplain⟩

end Listing

/-- A directory with everything below it, with the error of listing it if there is one. -/
structure DirTree where
  locked : Option IoError
  listing : Listing
  proper : listing.Proper

/-- `Component::as_os_str`. -/
def Component.asOsStr : Component → String
  | .RootDir => "/"
  | .CurDir => "."
  | .ParentDir => ".."
  | .Normal name => String.ofList name

namespace Fingerprint

def FNV_OFFSET_BASIS : UInt64 := 0xcbf29ce484222325

def FNV_PRIME : UInt64 := 0x00000100000001b3

/-- Why the files of a directory are not gathered. -/
inductive Stop where
  | Io (error : IoError)
  | Panicked (message : String)
deriving DecidableEq, Repr

/-! ## Gathering files -/

/-- The path below `root`, with `/` between its components. -/
def relative (root path : FilePath) : Except Stop String :=
  match path.stripPrefix root with
  | none => .error (.Panicked "collected paths should sit under the root: StripPrefixError(())")
  | some below => .ok ("/".intercalate (below.components.map Component.asOsStr))

def collectFiles (root : FilePath) : FilePath → Listing → List (String × List UInt8) →
    Except Stop (List (String × List UInt8))
  | _, .done, files => .ok files
  | _, .failed e _, _ => .error (.Io e)
  | dir, .directory name locked below rest, files =>
    match locked with
    | some e => .error (.Io e)
    | none =>
      match collectFiles root (dir.join ⟨name⟩) below files with
      | .error stop => .error stop
      | .ok files => collectFiles root dir rest files
  | dir, .file name contents rest, files =>
    match relative root (dir.join ⟨name⟩) with
    | .error stop => .error stop
    | .ok relative =>
      match contents with
      | .error e => .error (.Io e)
      | .ok contents => collectFiles root dir rest (files ++ [(relative, contents)])

/-- The order of the pairs: by name, and then by contents. -/
def fileKey (file : String × List UInt8) : String ×ₗ List ℕ :=
  toLex (file.1, file.2.map UInt8.toNat)

section

variable {σ : Type*} (feed : σ → UInt8 → σ)

/-! ## Feeding bytes -/

def fold (state : σ) (bytes : List UInt8) : σ :=
  bytes.foldl feed state

/-- `u64::to_le_bytes`. -/
def toLeBytes (value : UInt64) : List UInt8 :=
  Framing.bytesLE 8 value.toNat

def addBytes (state : σ) (bytes : List UInt8) : σ :=
  fold feed (fold feed state (toLeBytes (UInt64.ofNat bytes.length))) bytes

/-- The loop of `add_directory`. -/
def addFiles (state : σ) (files : List (String × List UInt8)) : σ :=
  files.foldl (fun state file =>
    addBytes feed (addBytes feed state file.1.toUTF8.data.toList) file.2) state

def addDirectory (state : σ) (root : FilePath) (tree : DirTree) : Except Stop Unit × σ :=
  match tree.locked with
  | some e => (.error (.Io e), state)
  | none =>
    match collectFiles root root tree.listing [] with
    | .error stop => (.error stop, state)
    | .ok files => (.ok (), addFiles feed state (Keyed.sortBy fileKey files))

end

/-- What the hash does with one byte. -/
def fnv (hash : UInt64) (byte : UInt8) : UInt64 :=
  (hash ^^^ byte.toUInt64) * FNV_PRIME

/-- Keeps the bytes. -/
def record (fed : List UInt8) (byte : UInt8) : List UInt8 :=
  fed ++ [byte]

def new : UInt64 := FNV_OFFSET_BASIS

/-- `{:016x}`. -/
def display (fingerprint : UInt64) : String := hex64 fingerprint

/-! ## What is fed -/

section

variable {σ : Type*} (feed : σ → UInt8 → σ)

/-- What one run feeds. -/
def frame (run : List UInt8) : List UInt8 :=
  toLeBytes (UInt64.ofNat run.length) ++ run

/-- Calls of `addBytes`, one after the other. -/
def addAll (state : σ) (runs : List (List UInt8)) : σ :=
  runs.foldl (addBytes feed) state

/-- The runs that a file is fed as. -/
def fileRuns (file : String × List UInt8) : List (List UInt8) :=
  [file.1.toUTF8.data.toList, file.2]

theorem addBytes_eq (state : σ) (run : List UInt8) :
    addBytes feed state run = fold feed state (frame run) := by
  unfold addBytes frame fold
  rw [List.foldl_append]

/-- The length of a run enters the hash ahead of it. -/
example : display (addBytes fnv new "generated code".toUTF8.data.toList) = "64957482f5862c75" := by
  decide

theorem addAll_eq (state : σ) (runs : List (List UInt8)) :
    addAll feed state runs = fold feed state (runs.flatMap frame) := by
  induction runs generalizing state with
  | nil => rfl
  | cons run runs ih =>
    show addAll feed (addBytes feed state run) runs = _
    rw [ih, addBytes_eq, List.flatMap_cons]
    unfold fold
    rw [List.foldl_append]

theorem addFiles_eq (state : σ) (files : List (String × List UInt8)) :
    addFiles feed state files = addAll feed state (files.flatMap fileRuns) := by
  induction files generalizing state with
  | nil => rfl
  | cons file files ih => exact ih _

theorem fold_record (fed bytes : List UInt8) : fold record fed bytes = fed ++ bytes := by
  induction bytes generalizing fed with
  | nil => exact (List.append_nil fed).symm
  | cons byte bytes ih =>
    show fold record (fed ++ [byte]) bytes = _
    rw [ih, List.append_assoc]
    rfl

/-- The record of calls is what they feed. -/
theorem addAll_record (runs : List (List UInt8)) : addAll record [] runs = runs.flatMap frame := by
  rw [addAll_eq, fold_record, List.nil_append]

/-- A state depends on the bytes that it is fed and on nothing else. -/
theorem addDirectory_eq (state : σ) (root : FilePath) (tree : DirTree) :
    addDirectory feed state root tree = ((addDirectory record [] root tree).1,
      fold feed state (addDirectory record [] root tree).2) := by
  unfold addDirectory
  split
  · rfl
  · split
    · rfl
    · rename_i files hfiles
      show (Except.ok (), addFiles feed state _) = (.ok (), fold feed state (addFiles record [] _))
      rw [addFiles_eq, addFiles_eq, addAll_record, addAll_eq]

end

/-! ## The bytes determine the runs -/

theorem frame_eq {run : List UInt8} (h : run.length < 2 ^ 64) :
    frame run = Framing.prefixed 8 run := by
  unfold frame toLeBytes Framing.prefixed
  rw [UInt64.toNat_ofNat', Nat.mod_eq_of_lt h]

theorem frame_ne_nil (run : List UInt8) : frame run ≠ [] := by
  intro hnil
  have hlength := congrArg List.length (List.append_eq_nil_iff.mp hnil).1
  unfold toLeBytes at hlength
  rw [Framing.length_bytesLE] at hlength
  cases hlength

theorem frame_selfDelimiting :
    Framing.SelfDelimiting (fun run : List UInt8 => run.length < 2 ^ 64) frame := by
  intro run other hrun hother s t h
  rw [frame_eq hrun, frame_eq hother] at h
  exact Framing.prefixed_selfDelimiting 8 run other (by simpa using hrun) (by simpa using hother)
    s t h

theorem addAll_record_inj {runs runs' : List (List UInt8)} (h : ∀ run ∈ runs, run.length < 2 ^ 64)
    (h' : ∀ run ∈ runs', run.length < 2 ^ 64)
    (heq : addAll record [] runs = addAll record [] runs') : runs = runs' := by
  rw [addAll_record, addAll_record] at heq
  exact Framing.flatMap_inj frame_selfDelimiting frame_ne_nil h h' heq

/-- The name and the contents of a file are known from its runs. -/
theorem fileRuns_flatMap_inj {files files' : List (String × List UInt8)}
    (h : files.flatMap fileRuns = files'.flatMap fileRuns) : files = files' := by
  induction files generalizing files' with
  | nil =>
    cases files' with
    | nil => rfl
    | cons file files' => cases h
  | cons file files ih =>
    cases files' with
    | nil => cases h
    | cons file' files' =>
      obtain ⟨hname, hrest⟩ := List.cons.inj h
      obtain ⟨hcontents, htail⟩ := List.cons.inj hrest
      have hbytes : file.1.toByteArray = file'.1.toByteArray :=
        ByteArray.ext (Array.toList_inj.mp hname)
      have hfile : file = file' := Prod.ext (String.toByteArray_inj.mp hbytes) hcontents
      rw [hfile, ih htail]

/-! ## The files of a directory -/

/-- The name under which a file is fed. -/
def pathName (names : List String) : String :=
  "/".intercalate names

theorem ofNames_text (names : List String) : (FilePath.ofNames names).text = pathName names := by
  apply String.toList_inj.mp
  rw [FilePath.ofNames, String.toList_ofList, pathName, String.toList_intercalate]
  rfl

theorem pathName_inj {names names' : List String} (h : ∀ name ∈ names, isPlain name = true)
    (h' : ∀ name ∈ names', isPlain name = true) (hne : names ≠ []) (hne' : names' ≠ [])
    (heq : pathName names = pathName names') : names = names' := by
  have hparts := FilePath.parts_ofNames h hne
  rw [ofNames_text, heq, ← ofNames_text, FilePath.parts_ofNames h' hne'] at hparts
  exact (List.map_injective_iff.mpr (fun _ _ => String.toList_inj.mp) hparts).symm

theorem components_ofNames {names : List String} (h : ∀ name ∈ names, isPlain name = true)
    (hne : names ≠ []) : (FilePath.ofNames names).components = FilePath.normals names := by
  have hempty : (⟨""⟩ : FilePath).components = [] := rfl
  have hjoin : (⟨""⟩ : FilePath).join (FilePath.ofNames names) = FilePath.ofNames names := by
    rw [FilePath.join, FilePath.isAbsolute_ofNames h hne, if_neg Bool.false_ne_true,
      if_pos (Or.inl String.toList_empty), String.empty_append]
  have hjoined := FilePath.components_joinAll ⟨""⟩ h
  rwa [FilePath.joinAll_eq_join ⟨""⟩ h hne, hjoin, hempty, List.nil_append] at hjoined

/-- A path that was joined to the root is fed under the names that were joined. -/
theorem relative_joinAll (root : FilePath) {names : List String}
    (h : ∀ name ∈ names, isPlain name = true) (hne : names ≠ []) :
    relative root (root.joinAll names) = .ok (pathName names) := by
  have hbelow : ∃ below, (root.joinAll names).stripPrefix root = some below ∧
      below.components = FilePath.normals names := by
    by_cases hroot : root.components = []
    · refine ⟨root.joinAll names, if_pos hroot, ?_⟩
      rw [FilePath.components_joinAll root h, hroot, List.nil_append]
    · exact ⟨_, FilePath.stripPrefix_joinAll hroot h hne, components_ofNames h hne⟩
  obtain ⟨below, hstrip, hcomponents⟩ := hbelow
  have hnames : (FilePath.normals names).map Component.asOsStr = names := by
    rw [FilePath.normals, List.map_map]
    have hname : ∀ name : String, Component.asOsStr (.Normal name.toList) = name :=
      fun name => String.ofList_toList
    simp [Function.comp_def, hname]
  unfold relative
  rw [hstrip]
  show Except.ok ("/".intercalate (below.components.map Component.asOsStr)) = _
  rw [hcomponents, hnames, pathName]

/-- `found` has the files of a directory, each once. -/
def Lists (listing : Listing) (found : List (List String × List UInt8)) : Prop :=
  found.Nodup ∧ ∀ file, file ∈ found ↔ listing.Holds file.1 file.2

theorem lists_file {name : String} {contents : List UInt8} {rest : Listing}
    (hproper : (Listing.file name (.ok contents) rest).Proper)
    {found : List (List String × List UInt8)} (h : Lists rest found) :
    Lists (.file name (.ok contents) rest) (([name], contents) :: found) := by
  obtain ⟨hname, hfresh, hrest⟩ := hproper
  obtain ⟨hnodup, hmem⟩ := h
  refine ⟨List.nodup_cons.mpr ⟨fun hfound => ?_, hnodup⟩, fun file => ?_⟩
  · obtain ⟨⟨first, hfirst, more, hway⟩, _⟩ := ((hmem _).mp hfound).plain hrest
    exact hfresh ((List.cons.inj hway).1 ▸ hfirst)
  · rw [List.mem_cons, hmem]
    refine or_congr_left ?_
    constructor
    · intro hfile
      rw [hfile]
      exact ⟨rfl, rfl⟩
    · intro hfile
      exact Prod.ext hfile.1 (Except.ok.inj hfile.2).symm

theorem lists_directory {name : String} {below rest : Listing}
    (hproper : (Listing.directory name none below rest).Proper)
    {inner found : List (List String × List UInt8)} (hinner : Lists below inner)
    (h : Lists rest found) : Lists (.directory name none below rest)
      (inner.map (fun file => (name :: file.1, file.2)) ++ found) := by
  obtain ⟨_, hfresh, _, hrest⟩ := hproper
  obtain ⟨hnodup, hmem⟩ := h
  obtain ⟨hnodupInner, hmemInner⟩ := hinner
  constructor
  · have hinjective : Function.Injective fun file : List String × List UInt8 =>
        (name :: file.1, file.2) := by
      intro file other heq
      obtain ⟨hway, hheld⟩ := Prod.mk.inj heq
      exact Prod.ext (List.cons.inj hway).2 hheld
    refine List.nodup_append.mpr ⟨hnodupInner.map hinjective, hnodup, ?_⟩
    intro file hfile other hother heq
    obtain ⟨below, _, rfl⟩ := List.mem_map.mp hfile
    obtain ⟨⟨first, hfirst, more, hway⟩, _⟩ := ((hmem _).mp hother).plain hrest
    rw [← heq] at hway
    exact hfresh ((List.cons.inj hway).1 ▸ hfirst)
  · intro file
    rw [List.mem_append, hmem, List.mem_map]
    refine or_congr_left ?_
    constructor
    · intro hfile
      obtain ⟨deep, hdeep, rfl⟩ := hfile
      exact ⟨deep.1, rfl, (hmemInner deep).mp hdeep⟩
    · intro hfile
      obtain ⟨more, hway, hheld⟩ := hfile
      exact ⟨(more, file.2), (hmemInner _).mpr hheld, Prod.ext hway.symm rfl⟩

/-- The pair that a file is gathered as, below a directory. -/
def gather (front : List String) (file : List String × List UInt8) : String × List UInt8 :=
  (pathName (front ++ file.1), file.2)

/-- Gathering fails with an error of the file system, or it gives each file once. -/
theorem collectFiles_spec (root : FilePath) {listing : Listing} (hproper : listing.Proper)
    {front : List String} (hfront : ∀ name ∈ front, isPlain name = true)
    (files : List (String × List UInt8)) :
    (∃ e, collectFiles root (root.joinAll front) listing files = .error (.Io e)) ∨
      ∃ found, collectFiles root (root.joinAll front) listing files
        = .ok (files ++ found.map (gather front)) ∧ Lists listing found := by
  induction listing generalizing front files with
  | done =>
    refine Or.inr ⟨[], ?_, List.nodup_nil, fun file => ?_⟩
    · rw [List.map_nil, List.append_nil]
      rfl
    · exact ⟨fun hmem => absurd hmem List.not_mem_nil, False.elim⟩
  | failed e rest _ => exact Or.inl ⟨e, rfl⟩
  | file name contents rest ih =>
    obtain ⟨hname, _, hrest⟩ := id hproper
    have hjoin : (root.joinAll front).join ⟨name⟩ = root.joinAll (front ++ [name]) :=
      (FilePath.joinAll_append root front [name]).symm
    have hnames : ∀ other ∈ front ++ [name], isPlain other = true := by
      intro other hother
      rcases List.mem_append.mp hother with hmem | hlast
      · exact hfront other hmem
      · exact List.mem_singleton.mp hlast ▸ hname
    have hrelative : relative root ((root.joinAll front).join ⟨name⟩)
        = .ok (pathName (front ++ [name])) := by
      rw [hjoin]
      exact relative_joinAll root hnames (List.append_ne_nil_of_right_ne_nil _ (List.cons_ne_nil _ _))
    unfold collectFiles
    rw [hrelative]
    cases contents with
    | error e => exact Or.inl ⟨e, rfl⟩
    | ok contents =>
      rcases ih hrest hfront (files ++ [(pathName (front ++ [name]), contents)]) with herror | hok
      · exact Or.inl herror
      · obtain ⟨found, hfound, hlists⟩ := hok
        refine Or.inr ⟨([name], contents) :: found, ?_, lists_file hproper hlists⟩
        show collectFiles root (root.joinAll front) rest _ = _
        rw [hfound, List.append_assoc]
        rfl
  | directory name locked below rest ihbelow ihrest =>
    obtain ⟨hname, _, hbelow, hrest⟩ := id hproper
    have hjoin : (root.joinAll front).join ⟨name⟩ = root.joinAll (front ++ [name]) :=
      (FilePath.joinAll_append root front [name]).symm
    have hnames : ∀ other ∈ front ++ [name], isPlain other = true := by
      intro other hother
      rcases List.mem_append.mp hother with hmem | hlast
      · exact hfront other hmem
      · exact List.mem_singleton.mp hlast ▸ hname
    unfold collectFiles
    rw [hjoin]
    cases locked with
    | some e => exact Or.inl ⟨e, rfl⟩
    | none =>
      rcases ihbelow hbelow hnames files with ⟨e, herror⟩ | ⟨inner, hinner, hlistsInner⟩
      · refine Or.inl ⟨e, ?_⟩
        rw [herror]
      · rw [hinner]
        rcases ihrest hrest hfront (files ++ inner.map (gather (front ++ [name]))) with
          ⟨e, herror⟩ | ⟨found, hfound, hlists⟩
        · exact Or.inl ⟨e, herror⟩
        · refine Or.inr ⟨_, ?_, lists_directory hproper hlistsInner hlists⟩
          have hgather : inner.map (gather (front ++ [name]))
              = (inner.map fun file => (name :: file.1, file.2)).map (gather front) := by
            rw [List.map_map]
            refine List.map_congr_left fun file _ => ?_
            show (pathName (front ++ [name] ++ file.1), file.2) = _
            rw [List.append_assoc]
            rfl
          show collectFiles root (root.joinAll front) rest _ = _
          rw [hfound, List.map_append, ← hgather, List.append_assoc]

/-! ## The bytes determine the files -/

/-- The bytes that a directory feeds. -/
def fed (root : FilePath) (tree : DirTree) : List UInt8 :=
  (addDirectory record [] root tree).2

/-- The name and the contents of every file are runs of fewer than `2 ^ 64` bytes. -/
def Fits (tree : DirTree) : Prop :=
  ∀ way held, tree.listing.Holds way held →
    (pathName way).utf8ByteSize < 2 ^ 64 ∧ held.length < 2 ^ 64

/-- What a directory feeds, if it can be read: its files, in the order of their pairs. -/
theorem fed_eq {root : FilePath} {tree : DirTree}
    (h : (addDirectory record [] root tree).1 = .ok ()) : ∃ found, Lists tree.listing found ∧
      fed root tree = addAll record []
        ((Keyed.sortBy fileKey (found.map (gather []))).flatMap fileRuns) := by
  unfold fed
  unfold addDirectory at h ⊢
  cases hlocked : tree.locked with
  | some e =>
    rw [hlocked] at h
    cases h
  | none =>
    rw [hlocked] at h
    have hfront : ∀ name ∈ ([] : List String), isPlain name = true :=
      fun _ hname => absurd hname List.not_mem_nil
    rcases collectFiles_spec root tree.proper hfront [] with ⟨e, herror⟩ | ⟨found, hfound, hlists⟩
    · have hroot : collectFiles root root tree.listing [] = .error (.Io e) := herror
      rw [hroot] at h
      cases h
    · have hroot : collectFiles root root tree.listing [] = .ok ([] ++ found.map (gather [])) :=
        hfound
      refine ⟨found, hlists, ?_⟩
      rw [hroot]
      show addFiles record [] _ = _
      rw [addFiles_eq]
      rfl

theorem gather_inj {listing listing' : Listing} (hproper : listing.Proper)
    (hproper' : listing'.Proper) {file file' : List String × List UInt8}
    (h : listing.Holds file.1 file.2) (h' : listing'.Holds file'.1 file'.2)
    (heq : gather [] file = gather [] file') : file = file' := by
  obtain ⟨⟨_, _, _, hway⟩, hplain⟩ := h.plain hproper
  obtain ⟨⟨_, _, _, hway'⟩, hplain'⟩ := h'.plain hproper'
  obtain ⟨hname, hheld⟩ := Prod.mk.inj heq
  have hnonempty : file.1 ≠ [] := hway ▸ List.cons_ne_nil _ _
  have hnonempty' : file'.1 ≠ [] := hway' ▸ List.cons_ne_nil _ _
  exact Prod.ext (pathName_inj hplain hplain' hnonempty hnonempty' hname) hheld

theorem fileKey_injective : Function.Injective fileKey := by
  intro file file' h
  obtain ⟨hname, hcontents⟩ := Prod.mk.inj (toLex.injective h)
  have hbytes : Function.Injective (List.map UInt8.toNat) :=
    List.map_injective_iff.mpr fun _ _ => UInt8.toNat_inj.mp
  exact Prod.ext hname (hbytes hcontents)

/-- The runs of a directory are as short as its names and contents. -/
theorem runs_short {tree : DirTree} (hfits : Fits tree) {found : List (List String × List UInt8)}
    (hlists : Lists tree.listing found) :
    ∀ run ∈ (Keyed.sortBy fileKey (found.map (gather []))).flatMap fileRuns,
      run.length < 2 ^ 64 := by
  intro run hrun
  obtain ⟨file, hfile, hmem⟩ := List.mem_flatMap.mp hrun
  obtain ⟨held, hheld, rfl⟩ := List.mem_map.mp ((Keyed.mem_sortBy _).mp hfile)
  obtain ⟨hname, hcontents⟩ := hfits held.1 held.2 ((hlists.2 held).mp hheld)
  rcases List.mem_cons.mp hmem with rfl | hlast
  · exact hname
  · rw [List.mem_singleton.mp hlast]
    exact hcontents

/-- The bytes determine the runs, and for a directory its files. -/
theorem streams_determine :
    (∀ runs runs' : List (List UInt8), (∀ run ∈ runs, run.length < 2 ^ 64) →
      (∀ run ∈ runs', run.length < 2 ^ 64) → runs ≠ runs' →
      addAll record [] runs ≠ addAll record [] runs') ∧
    ∀ (root root' : FilePath) (tree tree' : DirTree),
      (addDirectory record [] root tree).1 = .ok () →
      (addDirectory record [] root' tree').1 = .ok () → Fits tree → Fits tree' →
      (fed root tree = fed root' tree' ↔
        ∀ way held, tree.listing.Holds way held ↔ tree'.listing.Holds way held) := by
  refine ⟨fun runs runs' h h' hne heq => hne (addAll_record_inj h h' heq), ?_⟩
  intro root root' tree tree' hread hread' hfits hfits'
  obtain ⟨found, hlists, hfed⟩ := fed_eq hread
  obtain ⟨found', hlists', hfed'⟩ := fed_eq hread'
  rw [hfed, hfed']
  constructor
  · intro heq
    have hsorted := fileRuns_flatMap_inj
      (addAll_record_inj (runs_short hfits hlists) (runs_short hfits' hlists') heq)
    have hperm : (found.map (gather [])).Perm (found'.map (gather [])) := by
      refine (Keyed.sortBy_perm fileKey _).symm.trans ?_
      rw [hsorted]
      exact Keyed.sortBy_perm fileKey _
    intro way held
    rw [← hlists.2 (way, held), ← hlists'.2 (way, held)]
    constructor
    · intro hmem
      obtain ⟨file, hfile, hgather⟩ := List.mem_map.mp
        (hperm.mem_iff.mp (List.mem_map_of_mem hmem))
      have hsame := gather_inj tree'.proper tree.proper ((hlists'.2 file).mp hfile)
        ((hlists.2 _).mp hmem) hgather
      exact hsame ▸ hfile
    · intro hmem
      obtain ⟨file, hfile, hgather⟩ := List.mem_map.mp
        (hperm.mem_iff.mpr (List.mem_map_of_mem hmem))
      have hsame := gather_inj tree.proper tree'.proper ((hlists.2 file).mp hfile)
        ((hlists'.2 _).mp hmem) hgather
      exact hsame ▸ hfile
  · intro hsame
    have hperm : found.Perm found' := by
      refine (List.perm_ext_iff_of_nodup hlists.1 hlists'.1).mpr fun file => ?_
      rw [hlists.2, hlists'.2]
      exact hsame file.1 file.2
    have hnodup : ((found.map (gather [])).map fileKey).Nodup := by
      refine List.Nodup.map fileKey_injective (hlists.1.map_on ?_)
      intro file hfile other hother heq
      exact gather_inj tree.proper tree.proper ((hlists.2 file).mp hfile)
        ((hlists.2 other).mp hother) heq
    rw [Keyed.sortBy_perm_eq fileKey (hperm.map (gather [])) hnodup]

/-- A directory with one file. -/
def single (name : String) (contents : List UInt8) (h : isPlain name = true) : DirTree where
  locked := none
  listing := .file name (.ok contents) .done
  proper := ⟨h, List.not_mem_nil, trivial⟩

theorem holds_single {name : String} {contents : List UInt8} {h : isPlain name = true}
    {way : List String} {held : List UInt8} :
    (single name contents h).listing.Holds way held ↔ way = [name] ∧ contents = held := by
  show (way = [name] ∧ Except.ok contents = Except.ok held) ∨ False ↔ _
  rw [or_false, Except.ok.injEq]

/-- A file `a` that holds `bc` is not fed like a file `ab` that holds `c`. -/
theorem names_and_contents_apart :
    addAll record [] [[97], [98, 99]] ≠ addAll record [] [[97, 98], [99]] ∧
      fed ⟨"/first"⟩ (single "a" [98, 99] (by decide))
        ≠ fed ⟨"/second"⟩ (single "ab" [99] (by decide)) := by
  refine ⟨streams_determine.1 _ _ (by decide) (by decide) (by decide), fun heq => ?_⟩
  have hfits : Fits (single "a" [98, 99] (by decide)) := by
    intro way held hheld
    obtain ⟨rfl, rfl⟩ := holds_single.mp hheld
    decide
  have hfits' : Fits (single "ab" [99] (by decide)) := by
    intro way held hheld
    obtain ⟨rfl, rfl⟩ := holds_single.mp hheld
    decide
  have hfiles := (streams_determine.2 ⟨"/first"⟩ ⟨"/second"⟩ _ _ (by decide)
    (by decide) hfits hfits').mp heq ["a"] [98, 99]
  have hheld := holds_single.mp (hfiles.mp (holds_single.mpr ⟨rfl, rfl⟩))
  exact absurd hheld.2 (by decide)

end Fingerprint

end Stiles
