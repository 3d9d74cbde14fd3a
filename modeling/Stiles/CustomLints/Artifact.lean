import Stiles.General.KeyMap
import Stiles.General.Text
import Stiles.Types.Errors
import Stiles.Types.PathPrefix

/-
  The dynamic libraries that a build produced (`artifact.rs`).

  `cdylibArtifacts` goes over the messages of `cargo build`, one for each line, and keeps the
  library of each manifest under a directory. A later message of a manifest replaces the library of an
  earlier one.

  * `collect_eq_ok`: what the loop inserts, and when it does not stop.
  * `cdylibArtifacts_perm`: the order of the messages does not matter, and each manifest with a
    dynamic library under the directory has its own library.
-/

namespace Stiles

namespace Artifact

structure Target where
  crateTypes : List String
deriving DecidableEq, Repr

/-- One line of `cargo build --message-format=json-render-diagnostics`. -/
structure BuildMessage where
  reason : String
  manifestPath : Option FilePath
  target : Option Target
  filenames : List FilePath
deriving DecidableEq, Repr

def BuildMessage.buildsCdylib (message : BuildMessage) : Bool :=
  message.target.any fun target => target.crateTypes.any fun kind => kind = "cdylib"

instance (path base : FilePath) : Decidable (path.startsWith base) :=
  inferInstanceAs (Decidable (base.components <+: path.components))

section

/- `readMessage` is `serde_json::from_str`, which also fills in the fields that a message lacks. -/
variable (readMessage : String → AnyhowResult BuildMessage)
  (canonicalize : FilePath → AnyhowResult FilePath) (dllExtension : String)

/-- Resolves a path for comparison, or leaves it as written. -/
def canonical (path : FilePath) : FilePath :=
  match canonicalize path with
  | .ok resolved => resolved
  | .error _ => path

def isLibrary (file : FilePath) : Bool :=
  file.extension = some dllExtension

/-- The manifest and the library that a message adds, if any. -/
def artifactOf (directory : FilePath) (message : BuildMessage) :
    AnyhowResult (Option (FilePath × FilePath)) :=
  if message.reason ≠ "compiler-artifact" then .ok none
  else
    match message.manifestPath with
    | none => .ok none
    | some manifest =>
      let manifest := canonical canonicalize manifest
      if ¬manifest.startsWith directory then .ok none
      else if !message.buildsCdylib then .ok none
      else
        match message.filenames.find? (isLibrary dllExtension) with
        | none => .error (.msg ("cargo reported no dynamic library file for " ++ manifest.text))
        | some library => .ok (some (manifest, library))

def lineArtifact (directory : FilePath) (line : String) :
    AnyhowResult (Option (FilePath × FilePath)) := do
  let message ← withContext ("failed to read a cargo build message: " ++ line) (readMessage line)
  artifactOf canonicalize dllExtension directory message

/-- The loop over the lines. -/
def collect (directory : FilePath) (artifacts : KeyMap FilePath.components FilePath) :
    List String → AnyhowResult (KeyMap FilePath.components FilePath)
  | [] => .ok artifacts
  | line :: rest => do
    match ← lineArtifact readMessage canonicalize dllExtension directory line with
    | none => collect directory artifacts rest
    | some (manifest, library) => collect directory (artifacts.insert manifest library) rest

def lines (stdout : String) : List String :=
  (Text.lines stdout.toList).map String.ofList

def messageLines (stdout : String) : List String :=
  (lines stdout).filter fun line => !(Text.trim Text.isWhitespace line.toList).isEmpty

def noLibrary (directory : FilePath) : Anyhow :=
  .msg ("cargo built no dynamic library from " ++ directory.text ++
    "; a custom lint package needs\n\n[lib]\ncrate-type = [\"cdylib\"]\n\nin its Cargo.toml")

/-- Finds every dynamic library that cargo built from a package under `directory`. -/
def cdylibArtifacts (stdout : String) (directory : FilePath) : AnyhowResult (List FilePath) := do
  let directory := canonical canonicalize directory
  let artifacts ← collect readMessage canonicalize dllExtension directory KeyMap.empty
    (messageLines stdout)
  if artifacts.entries = [] then .error (noLibrary directory) else .ok artifacts.values

/-! ## What the messages say -/

/-- The manifest of a message that names a dynamic library, with the files of the message. -/
def BuildMessage.cdylib (message : BuildMessage) : Option (FilePath × List FilePath) :=
  if message.reason = "compiler-artifact" ∧ message.buildsCdylib then
    message.manifestPath.map fun manifest => (canonical canonicalize manifest, message.filenames)
  else none

def lineCdylib (line : String) : Option (FilePath × List FilePath) :=
  match readMessage line with
  | .ok message => message.cdylib canonicalize
  | .error _ => none

/-- What all messages say of dynamic libraries, in order. -/
def cdylibs (stdout : String) : List (FilePath × List FilePath) :=
  (messageLines stdout).filterMap (lineCdylib readMessage canonicalize)

/-- Those of the packages under a directory. -/
def cdylibsUnder (stdout : String) (directory : FilePath) : List (FilePath × List FilePath) :=
  (cdylibs readMessage canonicalize stdout).filter fun cdylib =>
    cdylib.1.startsWith (canonical canonicalize directory)

/-- One library for each manifest with a dynamic library under the directory, in order of the
    manifests. -/
def Collected (stdout : String) (directory : FilePath) (libraries : List FilePath) : Prop :=
  ∃ manifests : List FilePath,
    (manifests.map FilePath.components).Pairwise (· < ·) ∧
    (∀ path, (∃ manifest ∈ manifests, manifest.Same path) ↔
      ∃ cdylib ∈ cdylibsUnder readMessage canonicalize stdout directory, cdylib.1.Same path) ∧
    List.Forall₂ (fun manifest library =>
      ∃ cdylib ∈ cdylibsUnder readMessage canonicalize stdout directory,
        cdylib.1.Same manifest ∧ cdylib.2.find? (isLibrary dllExtension) = some library)
      manifests libraries

end

section

variable {readMessage : String → AnyhowResult BuildMessage}
  {canonicalize : FilePath → AnyhowResult FilePath} {dllExtension : String}

/-! ## One line -/

theorem artifactOf_eq (directory : FilePath) (message : BuildMessage) :
    artifactOf canonicalize dllExtension directory message =
      match message.cdylib canonicalize with
      | none => .ok none
      | some (manifest, files) =>
        if ¬manifest.startsWith directory then .ok none
        else
          match files.find? (isLibrary dllExtension) with
          | none => .error (.msg ("cargo reported no dynamic library file for " ++ manifest.text))
          | some library => .ok (some (manifest, library)) := by
  obtain ⟨reason, manifestPath, target, filenames⟩ := message
  unfold artifactOf BuildMessage.cdylib
  by_cases hreason : reason = "compiler-artifact"
  · cases hbuilds : BuildMessage.buildsCdylib ⟨reason, manifestPath, target, filenames⟩ with
    | true => cases manifestPath <;> simp [hreason]
    | false => cases manifestPath <;> simp [hreason]
  · simp [hreason]

/-- What a line adds if the loop does not stop at it. -/
def added (readMessage : String → AnyhowResult BuildMessage)
    (canonicalize : FilePath → AnyhowResult FilePath) (dllExtension : String)
    (directory : FilePath) (line : String) : Option (FilePath × FilePath) :=
  match lineArtifact readMessage canonicalize dllExtension directory line with
  | .ok artifact => artifact
  | .error _ => none

theorem added_eq (directory : FilePath) (line : String) :
    added readMessage canonicalize dllExtension directory line =
      (lineCdylib readMessage canonicalize line).bind fun cdylib =>
        if cdylib.1.startsWith directory then
          (cdylib.2.find? (isLibrary dllExtension)).map fun library => (cdylib.1, library)
        else none := by
  rw [added, lineArtifact, lineCdylib]
  cases hread : readMessage line with
  | error e => rfl
  | ok message =>
    show (match artifactOf canonicalize dllExtension directory message with
      | .ok artifact => artifact
      | .error _ => none) = (message.cdylib canonicalize).bind _
    rw [artifactOf_eq]
    cases hcdylib : message.cdylib canonicalize with
    | none => rfl
    | some cdylib =>
      obtain ⟨manifest, files⟩ := cdylib
      rw [Option.bind_some]
      by_cases hunder : manifest.startsWith directory
      · cases hfind : files.find? (isLibrary dllExtension) <;> simp [hunder, hfind]
      · simp [hunder]

/-- A line adds the library of its message. -/
theorem added_eq_some {directory : FilePath} {line : String} {artifact : FilePath × FilePath} :
    added readMessage canonicalize dllExtension directory line = some artifact ↔
      ∃ files, lineCdylib readMessage canonicalize line = some (artifact.1, files) ∧
        artifact.1.startsWith directory ∧
        files.find? (isLibrary dllExtension) = some artifact.2 := by
  rw [added_eq, Option.bind_eq_some_iff]
  constructor
  · intro h
    obtain ⟨⟨manifest, files⟩, hcdylib, hartifact⟩ := h
    by_cases hunder : manifest.startsWith directory
    · rw [if_pos hunder, Option.map_eq_some_iff] at hartifact
      obtain ⟨library, hfind, rfl⟩ := hartifact
      exact ⟨files, hcdylib, hunder, hfind⟩
    · rw [if_neg hunder] at hartifact
      cases hartifact
  · intro h
    obtain ⟨files, hcdylib, hunder, hfind⟩ := h
    refine ⟨(artifact.1, files), hcdylib, ?_⟩
    rw [if_pos hunder, hfind]
    rfl

/-- A line of a package under the directory adds something, unless the loop stops there. -/
theorem added_of_cdylib {directory : FilePath} {line : String}
    {artifact : Option (FilePath × FilePath)} {cdylib : FilePath × List FilePath}
    (hok : lineArtifact readMessage canonicalize dllExtension directory line = .ok artifact)
    (hcdylib : lineCdylib readMessage canonicalize line = some cdylib)
    (hunder : cdylib.1.startsWith directory) :
    ∃ library, added readMessage canonicalize dllExtension directory line
      = some (cdylib.1, library) := by
  suffices hfind : ∃ library, cdylib.2.find? (isLibrary dllExtension) = some library by
    obtain ⟨library, hfind⟩ := hfind
    exact ⟨library, added_eq_some.mpr ⟨cdylib.2, hcdylib, hunder, hfind⟩⟩
  unfold lineArtifact at hok
  unfold lineCdylib at hcdylib
  cases hread : readMessage line with
  | error e =>
    rw [hread] at hcdylib
    cases hcdylib
  | ok message =>
    rw [hread] at hcdylib hok
    have hmessage : message.cdylib canonicalize = some cdylib := hcdylib
    have hstep : artifactOf canonicalize dllExtension directory message = .ok artifact := hok
    rw [artifactOf_eq, hmessage] at hstep
    cases hfind : cdylib.2.find? (isLibrary dllExtension) with
    | none => simp [hunder, hfind] at hstep
    | some library => exact ⟨library, rfl⟩

/-! ## The loop -/

/-- The loop stops at no line, and inserts what the lines add. -/
theorem collect_eq_ok {directory : FilePath}
    {artifacts artifacts' : KeyMap FilePath.components FilePath} {lines : List String} :
    collect readMessage canonicalize dllExtension directory artifacts lines = .ok artifacts' ↔
      (∀ line ∈ lines, ∃ artifact,
        lineArtifact readMessage canonicalize dllExtension directory line = .ok artifact) ∧
      artifacts' = (lines.filterMap
        (added readMessage canonicalize dllExtension directory)).foldl
          (fun m pair => m.insert pair.1 pair.2) artifacts := by
  induction lines generalizing artifacts with
  | nil =>
    unfold collect
    constructor
    · intro h
      exact ⟨fun line hline => absurd hline List.not_mem_nil, (Except.ok.inj h).symm⟩
    · intro h
      rw [h.2]
      rfl
  | cons line rest ih =>
    rw [collect, List.forall_mem_cons]
    cases hline : lineArtifact readMessage canonicalize dllExtension directory line with
    | error e => simp [bind, Except.bind]
    | ok artifact =>
      have hadded : added readMessage canonicalize dllExtension directory line = artifact := by
        rw [added, hline]
      cases artifact with
      | none =>
        rw [List.filterMap_cons_none hadded]
        show collect readMessage canonicalize dllExtension directory artifacts rest = _ ↔ _
        rw [ih]
        simp
      | some pair =>
        rw [List.filterMap_cons_some hadded, List.foldl_cons]
        show collect readMessage canonicalize dllExtension directory
          (artifacts.insert pair.1 pair.2) rest = _ ↔ _
        rw [ih]
        simp

/-- All that the lines add, in order. -/
def additions (readMessage : String → AnyhowResult BuildMessage)
    (canonicalize : FilePath → AnyhowResult FilePath) (dllExtension : String)
    (stdout : String) (directory : FilePath) : List (FilePath × FilePath) :=
  (messageLines stdout).filterMap
    (added readMessage canonicalize dllExtension (canonical canonicalize directory))

theorem cdylibArtifacts_eq_ok {stdout : String} {directory : FilePath} {libraries : List FilePath} :
    cdylibArtifacts readMessage canonicalize dllExtension stdout directory = .ok libraries ↔
      (∀ line ∈ messageLines stdout, ∃ artifact, lineArtifact readMessage canonicalize dllExtension
        (canonical canonicalize directory) line = .ok artifact) ∧
      additions readMessage canonicalize dllExtension stdout directory ≠ [] ∧
      (KeyMap.ofPairs FilePath.components
        (additions readMessage canonicalize dllExtension stdout directory)).values = libraries := by
  show (collect readMessage canonicalize dllExtension (canonical canonicalize directory)
    KeyMap.empty (messageLines stdout)).bind _ = _ ↔ _
  cases hcollect : collect readMessage canonicalize dllExtension (canonical canonicalize directory)
      KeyMap.empty (messageLines stdout) with
  | error e =>
    constructor
    · intro h
      cases h
    · intro h
      have hok : collect readMessage canonicalize dllExtension (canonical canonicalize directory)
          KeyMap.empty (messageLines stdout) = .ok (KeyMap.ofPairs FilePath.components
            (additions readMessage canonicalize dllExtension stdout directory)) :=
        collect_eq_ok.mpr ⟨h.1, rfl⟩
      rw [hcollect] at hok
      cases hok
  | ok artifacts =>
    obtain ⟨hlines, hartifacts⟩ := collect_eq_ok.mp hcollect
    have hpairs : artifacts = KeyMap.ofPairs FilePath.components
        (additions readMessage canonicalize dllExtension stdout directory) := hartifacts
    have hempty : artifacts.entries = [] ↔
        additions readMessage canonicalize dllExtension stdout directory = [] := by
      rw [hpairs, KeyMap.entries_ofPairs_eq_nil]
    rw [← hpairs]
    show (if artifacts.entries = [] then _ else _) = _ ↔ _
    by_cases hnone : artifacts.entries = []
    · rw [if_pos hnone]
      constructor
      · intro h
        cases h
      · intro h
        exact absurd (hempty.mp hnone) h.2.1
    · rw [if_neg hnone]
      constructor
      · intro h
        exact ⟨hlines, fun hnil => hnone (hempty.mpr hnil), Except.ok.inj h⟩
      · intro h
        exact congrArg Except.ok h.2.2

/-! ## The order of the messages -/

theorem messageLines_perm {stdout stdout' : String} (h : (lines stdout).Perm (lines stdout')) :
    (messageLines stdout).Perm (messageLines stdout') :=
  h.filter _

theorem mem_additions {stdout : String} {directory : FilePath} {artifact : FilePath × FilePath} :
    artifact ∈ additions readMessage canonicalize dllExtension stdout directory ↔
      ∃ cdylib ∈ cdylibsUnder readMessage canonicalize stdout directory,
        cdylib.1 = artifact.1 ∧ cdylib.2.find? (isLibrary dllExtension) = some artifact.2 := by
  rw [additions, List.mem_filterMap]
  constructor
  · intro h
    obtain ⟨line, hline, hadded⟩ := h
    obtain ⟨files, hcdylib, hunder, hfind⟩ := added_eq_some.mp hadded
    have hmem : (artifact.1, files) ∈ cdylibs readMessage canonicalize stdout :=
      List.mem_filterMap.mpr ⟨line, hline, hcdylib⟩
    exact ⟨(artifact.1, files), List.mem_filter.mpr ⟨hmem, decide_eq_true hunder⟩, rfl, hfind⟩
  · intro h
    obtain ⟨⟨manifest, files⟩, hmem, rfl, hfind⟩ := h
    obtain ⟨hcdylib, hunder⟩ := List.mem_filter.mp hmem
    obtain ⟨line, hline, hline'⟩ := List.mem_filterMap.mp hcdylib
    exact ⟨line, hline, added_eq_some.mpr ⟨files, hline', of_decide_eq_true hunder, hfind⟩⟩

/-- Where each manifest has the same files in all messages, it has one library. -/
theorem additions_consistent {stdout : String} (directory : FilePath)
    (h : KeyMap.Consistent FilePath.components (cdylibs readMessage canonicalize stdout)) :
    KeyMap.Consistent FilePath.components
      (additions readMessage canonicalize dllExtension stdout directory) := by
  intro artifact hartifact other hother hsame
  obtain ⟨cdylib, hcdylib, hmanifest, hfind⟩ := mem_additions.mp hartifact
  obtain ⟨cdylib', hcdylib', hmanifest', hfind'⟩ := mem_additions.mp hother
  have hfiles : cdylib.2 = cdylib'.2 := by
    apply h cdylib (List.mem_of_mem_filter hcdylib) cdylib' (List.mem_of_mem_filter hcdylib')
    rw [hmanifest, hmanifest', hsame]
  rw [hfiles] at hfind
  exact Option.some.inj (hfind.symm.trans hfind')

theorem collected {stdout : String} {directory : FilePath}
    (h : KeyMap.Consistent FilePath.components (cdylibs readMessage canonicalize stdout))
    (hlines : ∀ line ∈ messageLines stdout, ∃ artifact, lineArtifact readMessage canonicalize
      dllExtension (canonical canonicalize directory) line = .ok artifact) :
    Collected readMessage canonicalize dllExtension stdout directory
      (KeyMap.ofPairs FilePath.components
        (additions readMessage canonicalize dllExtension stdout directory)).values := by
  have hconsistent : KeyMap.Consistent FilePath.components
      (additions readMessage canonicalize dllExtension stdout directory) :=
    additions_consistent directory h
  generalize hpairs : additions readMessage canonicalize dllExtension stdout directory = pairs
    at hconsistent
  have hentry : ∀ entry, entry ∈ (KeyMap.ofPairs FilePath.components pairs).sorted →
      ∃ pair ∈ pairs, pair.1.Same entry.1 ∧ pair.2 = entry.2 := by
    intro entry hentry
    refine (KeyMap.get_ofPairs hconsistent).mp (KeyMap.get_eq_some.mpr ?_)
    exact ⟨entry.1, KeyMap.mem_sorted.mp hentry, rfl⟩
  refine ⟨(KeyMap.ofPairs FilePath.components pairs).sorted.map Prod.fst, ?_, ?_, ?_⟩
  · rw [List.map_map]
    exact KeyMap.sorted_strict _
  · intro path
    constructor
    · intro hmanifest
      obtain ⟨manifest, hmem, hsame⟩ := hmanifest
      obtain ⟨entry, hmem', rfl⟩ := List.mem_map.mp hmem
      obtain ⟨pair, hpair, hagrees, _⟩ := hentry entry hmem'
      obtain ⟨cdylib, hcdylib, hmanifest, _⟩ := mem_additions.mp (hpairs ▸ hpair)
      exact ⟨cdylib, hcdylib, hmanifest ▸ hagrees.trans hsame⟩
    · intro hcdylib
      obtain ⟨cdylib, hcdylib, hsame⟩ := hcdylib
      obtain ⟨hmem, hunder⟩ := List.mem_filter.mp hcdylib
      obtain ⟨line, hline, hline'⟩ := List.mem_filterMap.mp hmem
      obtain ⟨artifact, hok⟩ := hlines line hline
      obtain ⟨library, hadded⟩ := added_of_cdylib hok hline' (of_decide_eq_true hunder)
      have hpair : (cdylib.1, library) ∈ pairs :=
        hpairs ▸ List.mem_filterMap.mpr ⟨line, hline, hadded⟩
      obtain ⟨manifest, hentry', hkey⟩ := KeyMap.get_eq_some.mp
        ((KeyMap.get_ofPairs hconsistent).mpr ⟨(cdylib.1, library), hpair, rfl, rfl⟩)
      exact ⟨manifest, List.mem_map.mpr ⟨_, KeyMap.mem_sorted.mpr hentry', rfl⟩, hkey.trans hsame⟩
  · rw [KeyMap.values, List.forall₂_map_left_iff, List.forall₂_map_right_iff, List.forall₂_same]
    intro entry hmem
    obtain ⟨pair, hpair, hagrees, hlibrary⟩ := hentry entry hmem
    obtain ⟨cdylib, hcdylib, hmanifest, hfind⟩ := mem_additions.mp (hpairs ▸ hpair)
    exact ⟨cdylib, hcdylib, hmanifest ▸ hagrees, hlibrary ▸ hfind⟩

/-- Each order of the messages leads to the same libraries, one for each manifest, or to a
    failure. -/
theorem cdylibArtifacts_perm {stdout stdout' : String} (directory : FilePath)
    (hperm : (lines stdout).Perm (lines stdout'))
    (hfiles : KeyMap.Consistent FilePath.components (cdylibs readMessage canonicalize stdout)) :
    (∃ libraries,
      cdylibArtifacts readMessage canonicalize dllExtension stdout directory = .ok libraries ∧
      cdylibArtifacts readMessage canonicalize dllExtension stdout' directory = .ok libraries ∧
      Collected readMessage canonicalize dllExtension stdout directory libraries) ∨
    ∃ e e', cdylibArtifacts readMessage canonicalize dllExtension stdout directory = .error e ∧
      cdylibArtifacts readMessage canonicalize dllExtension stdout' directory = .error e' := by
  have hmessages := messageLines_perm hperm
  have hpairs : (additions readMessage canonicalize dllExtension stdout directory).Perm
      (additions readMessage canonicalize dllExtension stdout' directory) := hmessages.filterMap _
  have hconsistent : KeyMap.Consistent FilePath.components
      (additions readMessage canonicalize dllExtension stdout directory) :=
    additions_consistent directory hfiles
  have hvalues := KeyMap.values_ofPairs_perm hconsistent hpairs
  cases hrun : cdylibArtifacts readMessage canonicalize dllExtension stdout directory with
  | ok libraries =>
    left
    obtain ⟨hlines, hsome, rfl⟩ := cdylibArtifacts_eq_ok.mp hrun
    refine ⟨_, rfl, ?_, collected hfiles hlines⟩
    refine cdylibArtifacts_eq_ok.mpr ⟨?_, ?_, hvalues.symm⟩
    · exact fun line hline => hlines line (hmessages.mem_iff.mpr hline)
    · exact fun hnone => hsome (List.perm_nil.mp (hnone ▸ hpairs))
  | error e =>
    right
    cases hrun' : cdylibArtifacts readMessage canonicalize dllExtension stdout' directory with
    | error e' => exact ⟨e, e', rfl, rfl⟩
    | ok libraries =>
      obtain ⟨hlines, hsome, rfl⟩ := cdylibArtifacts_eq_ok.mp hrun'
      have hok := cdylibArtifacts_eq_ok.mpr
        ⟨fun line hline => hlines line (hmessages.mem_iff.mp hline),
          fun hnone => hsome (List.nil_perm.mp (hnone ▸ hpairs)), hvalues⟩
      rw [hrun] at hok
      cases hok

end

/-! ## One message after the other -/

/-- The texts with a line feed after each. -/
def unlines (texts : List String) : String :=
  String.ofList (texts.flatMap fun text => text.toList ++ ['\n'])

theorem lines_unlines {texts : List String}
    (h : ∀ text ∈ texts, '\n' ∉ text.toList ∧ Text.stripReturn text.toList = text.toList) :
    lines (unlines texts) = texts := by
  rw [lines, unlines, String.toList_ofList]
  induction texts with
  | nil => rfl
  | cons text texts ih =>
    obtain ⟨⟨hfeed, hreturn⟩, hrest⟩ := List.forall_mem_cons.mp h
    rw [List.flatMap_cons, List.append_assoc, List.singleton_append, Text.lines_append_newline hfeed,
      hreturn, List.map_cons, String.ofList_toList, ih hrest]

/-- A message of a package, as cargo prints it. -/
def messageText (package : String) : String :=
  "\x7b\"reason\":\"compiler-artifact\",\"manifest_path\":\"" ++ package ++
    "/Cargo.toml\",\"target\":\x7b\"crate_types\":[\"cdylib\"]\x7d,\"filenames\":[\"" ++
    package ++ "/x.so\"]\x7d"

/-- A message has no line break but for those of its package. -/
theorem messageText_noBreak {package : String} {c : Char} (hbreak : c = '\n' ∨ c = '\r')
    (hpackage : c ∉ package.toList) : c ∉ (messageText package).toList := by
  unfold messageText
  simp only [String.toList_append, List.mem_append, not_or]
  refine ⟨⟨⟨⟨?_, hpackage⟩, ?_⟩, hpackage⟩, ?_⟩
  · rw [String.toList_ofList]
    rcases hbreak with rfl | rfl <;> decide
  · rw [String.toList_ofList]
    rcases hbreak with rfl | rfl <;> decide
  · rw [String.toList_ofList]
    rcases hbreak with rfl | rfl <;> decide

theorem messageText_notBlank (package : String) :
    (Text.trim Text.isWhitespace (messageText package).toList).isEmpty = false := by
  have hopen : '\x7b' ∈ (messageText package).toList := by
    unfold messageText
    simp only [String.toList_append, List.mem_append]
    refine Or.inl (Or.inl (Or.inl (Or.inl ?_)))
    rw [String.toList_ofList]
    exact List.mem_cons_self
  exact Text.isEmpty_trim hopen (by decide)

/-- What the messages of three packages say. -/
def readWorkspace (line : String) : AnyhowResult BuildMessage :=
  match ["/p/a", "/p/b", "/d"].find? fun package => messageText package = line with
  | none => .error (.msg "expected value at line 1 column 1")
  | some package => .ok {
      reason := "compiler-artifact"
      manifestPath := some ⟨package ++ "/Cargo.toml"⟩
      target := some ⟨["cdylib"]⟩
      filenames := [⟨package ++ "/x.so"⟩] }

/-- The second package is built first and reported twice, and the last one is a dependency. -/
def workspace : List String :=
  [messageText "/p/b", messageText "/d", "", messageText "/p/a", messageText "/p/b"]

theorem lines_workspace {texts : List String} (h : texts ⊆ workspace) :
    lines (unlines texts) = texts := by
  refine lines_unlines fun text htext => ?_
  have hnone : ∀ c, c = '\n' ∨ c = '\r' → c ∉ text.toList := by
    intro c hbreak
    have hmem := h htext
    simp only [workspace, List.mem_cons, List.not_mem_nil, or_false] at hmem
    rcases hmem with rfl | rfl | rfl | rfl | rfl
    · exact messageText_noBreak hbreak (by rcases hbreak with rfl | rfl <;> decide)
    · exact messageText_noBreak hbreak (by rcases hbreak with rfl | rfl <;> decide)
    · exact List.not_mem_nil
    · exact messageText_noBreak hbreak (by rcases hbreak with rfl | rfl <;> decide)
    · exact messageText_noBreak hbreak (by rcases hbreak with rfl | rfl <;> decide)
  exact ⟨hnone _ (Or.inl rfl), Text.stripReturn_of_notMem (hnone _ (Or.inr rfl))⟩

theorem messageLines_workspace : messageLines (unlines workspace) =
    [messageText "/p/b", messageText "/d", messageText "/p/a", messageText "/p/b"] := by
  rw [messageLines, lines_workspace (List.Subset.refl _)]
  simp only [workspace, List.filter_cons, messageText_notBlank]
  rfl

theorem cdylibArtifacts_workspace :
    ((∃ libraries,
      cdylibArtifacts readWorkspace .ok "so" (unlines workspace) ⟨"/p"⟩ = .ok libraries ∧
      cdylibArtifacts readWorkspace .ok "so" (unlines workspace.reverse) ⟨"/p"⟩ = .ok libraries ∧
      Collected readWorkspace .ok "so" (unlines workspace) ⟨"/p"⟩ libraries) ∨
    ∃ e e', cdylibArtifacts readWorkspace .ok "so" (unlines workspace) ⟨"/p"⟩ = .error e ∧
      cdylibArtifacts readWorkspace .ok "so" (unlines workspace.reverse) ⟨"/p"⟩ = .error e') ∧
    cdylibArtifacts readWorkspace .ok "so" (unlines workspace) ⟨"/p"⟩
      = .ok [⟨"/p/a/x.so"⟩, ⟨"/p/b/x.so"⟩] := by
  refine ⟨cdylibArtifacts_perm ⟨"/p"⟩ ?_ ?_, ?_⟩
  · rw [lines_workspace (List.Subset.refl _), lines_workspace (List.reverse_subset.mpr
      (List.Subset.refl _))]
    exact (List.reverse_perm workspace).symm
  · rw [cdylibs, messageLines_workspace]
    decide
  · rw [cdylibArtifacts, messageLines_workspace]
    decide

end Artifact

end Stiles
