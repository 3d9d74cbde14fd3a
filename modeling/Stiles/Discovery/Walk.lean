import Stiles.Check.Run
import Stiles.General.Keyed
import Stiles.Types.PathPrefix

/-
  The files of a check run (`discovery.rs`, `walk_failure.rs`).

  `Discovery.run` resolves a path, compiles the ignore patterns and goes over what the walker gives
  below a directory. The walker and the matcher are the `ignore` crate's, a parameter of the model.

  * `walkLoop_eq`: the loop in terms of the files and the errors of a stream.
  * `found_grammar`: a file that is found has a grammar.
-/

namespace Stiles

def Language.fromExtension : String → Option Language
  | "rs" => some .Rust
  | "ts" => some .TypeScript
  | "mts" => some .TypeScript
  | "cts" => some .TypeScript
  | "tsx" => some .TypeScript
  | _ => none

namespace Discovery

/-! ## The walker -/

/-- `ignore::Error`. -/
inductive WalkError where
  | Partial (errors : List WalkError)
  | WithLineNumber (line : Nat) (err : WalkError)
  | WithPath (path : FilePath) (err : WalkError)
  | WithDepth (depth : Nat) (err : WalkError)
  | Loop (ancestor child : FilePath)
  | Io (err : IoError)
  | Glob (glob : Option String) (err : String)
  | UnrecognizedFileType (name : String)
  | InvalidDefinition

inductive FileType where
  | Dir
  | File
  | Symlink
  | Other
deriving DecidableEq, Repr

/-- `ignore::DirEntry`. The standard input has no file type. -/
structure WalkEntry where
  path : FilePath
  fileType : Option FileType
  /-- What was wrong with the ignore files of the entry. -/
  error : Option WalkError

/-- `ignore::Match`, without the pattern. -/
inductive Match where
  | None
  | Ignore
  | Whitelist
deriving DecidableEq, Repr

/-- The `ignore` crate and the file system. -/
structure Walker where
  Builder : Type
  Gitignore : Type
  new : FilePath → Builder
  addLine : Builder → String → Except WalkError Builder
  build : Builder → Except WalkError Gitignore
  /-- What the patterns say of a path, which is a directory or not. -/
  matched : Gitignore → FilePath → Bool → Match
  display : WalkError → String
  canonicalize : FilePath → Except IoError FilePath
  isFile : FilePath → Bool
  /-- The results of a walk below a root with a filter. -/
  walk : FilePath → (WalkEntry → Bool) → List (Except WalkError WalkEntry)

/-! ## Failures -/

inductive WalkFailure where
  | DirectoryEntry
  | IgnoreFile
deriving DecidableEq, Repr

mutual

def WalkFailure.classify : WalkError → WalkFailure
  | .Glob _ _ => .IgnoreFile
  | .WithLineNumber _ _ => .IgnoreFile
  | .WithPath _ err => classify err
  | .WithDepth _ err => classify err
  | .Partial errors => if hasIgnoreFile errors then .IgnoreFile else .DirectoryEntry
  | .Loop _ _ => .DirectoryEntry
  | .Io _ => .DirectoryEntry
  | .UnrecognizedFileType _ => .DirectoryEntry
  | .InvalidDefinition => .DirectoryEntry

def WalkFailure.hasIgnoreFile : List WalkError → Bool
  | [] => false
  | error :: rest => classify error = .IgnoreFile || hasIgnoreFile rest

end

def WalkFailure.context : WalkFailure → String
  | .DirectoryEntry => "failed to read a directory entry"
  | .IgnoreFile => "failed to read an ignore file"

section

variable (walker : Walker)

/-- An error of the walker with its context. -/
def walkError (error : WalkError) : Anyhow :=
  (Anyhow.msg (walker.display error)).context (WalkFailure.classify error).context

def attachedError (entry : WalkEntry) : Option Anyhow :=
  entry.error.map fun error =>
    (Anyhow.msg (walker.display error)).context "failed to read an ignore file"

/-! ## The run -/

/-- The loop of `build_excludes`. -/
def addPatterns : walker.Builder → List IgnorePattern → AnyhowResult walker.Builder
  | builder, [] => .ok builder
  | builder, pattern :: rest =>
    match withContext ("failed to read the ignore pattern `" ++ pattern.pattern ++ "`")
      ((walker.addLine builder pattern.pattern).mapError fun e => .msg (walker.display e)) with
    | .error e => .error e
    | .ok builder => addPatterns builder rest

def buildExcludes (config : StilesConfig) : AnyhowResult walker.Gitignore :=
  match addPatterns walker (walker.new config.root) config.ignore with
  | .error e => .error e
  | .ok builder =>
    withContext "failed to compile the configured ignore patterns"
      ((walker.build builder).mapError fun e => .msg (walker.display e))

/-- The filter of the walk. -/
def admits (excludes : walker.Gitignore) (entry : WalkEntry) : Bool :=
  let isDir := entry.fileType = some .Dir
  match walker.matched excludes entry.path isDir with
  | .None => true
  | .Ignore => false
  | .Whitelist => true

end

def rebase (original root entry : FilePath) : FilePath :=
  original.join ((entry.stripPrefix root).getD entry)

/-- The file that an entry is, under the path that the user gave. -/
def sourceFile (path root : FilePath) (entry : WalkEntry) : Option FilePath :=
  match entry.fileType with
  | some .File =>
    match entry.path.extension with
    | none => none
    | some extension =>
      match Language.fromExtension extension with
      | none => none
      | some _ => some (rebase path root entry.path)
  | _ => none

/-- The loop over the results of the walk. -/
def walkLoop (walker : Walker) (path root : FilePath) (onError : WalkErrorPolicy) :
    List (Except WalkError WalkEntry) → List FilePath → List Anyhow →
      AnyhowResult (List FilePath × List Anyhow)
  | [], files, errors => .ok (files, errors)
  | .error error :: rest, files, errors =>
    match onError with
    | .Fail => .error (walkError walker error)
    | .ReportAndContinue =>
      walkLoop walker path root onError rest files (errors ++ [walkError walker error])
  | .ok entry :: rest, files, errors =>
    let kept := files ++ (sourceFile path root entry).toList
    match attachedError walker entry with
    | none => walkLoop walker path root onError rest kept errors
    | some error =>
      match onError with
      | .Fail => .error error
      | .ReportAndContinue => walkLoop walker path root onError rest kept (errors ++ [error])

/-- The run over a single file. -/
def runFile (path : FilePath) : AnyhowResult Discovery :=
  match path.extension with
  | none =>
    .error (.msg ("stiles cannot check " ++ path.text ++ ": it has no file extension, so there " ++
      "is nothing to tell stiles which language to parse it as"))
  | some extension =>
    match Language.fromExtension extension with
    | none =>
      .error (.msg ("stiles cannot check " ++ path.text ++ ": there is no grammar for `." ++
        extension ++ "` files"))
    | some _ => .ok { files := [path], errors := [] }

/-- The run over a directory. -/
def runDirectory (walker : Walker) (excludes : walker.Gitignore) (path root : FilePath)
    (onError : WalkErrorPolicy) : AnyhowResult Discovery :=
  match walkLoop walker path root onError (walker.walk root (admits walker excludes)) [] [] with
  | .error e => .error e
  | .ok (files, errors) => .ok { files := Keyed.sortBy FilePath.components files, errors }

def run (walker : Walker) (path : FilePath) (config : StilesConfig) (onError : WalkErrorPolicy) :
    AnyhowResult Discovery :=
  match withContext ("failed to resolve " ++ path.text)
    ((walker.canonicalize path).mapError fun e => .msg e.message) with
  | .error e => .error e
  | .ok root =>
    match withContext "failed to read the ignore patterns" (buildExcludes walker config) with
    | .error e => .error e
    | .ok excludes =>
      if walker.isFile root then runFile path
      else runDirectory walker excludes path root onError

/-! ## A stream of results -/

/-- The errors that the loop can report, in order. -/
def recorded (walker : Walker) (stream : List (Except WalkError WalkEntry)) : List Anyhow :=
  stream.filterMap fun
    | .error error => some (walkError walker error)
    | .ok entry => attachedError walker entry

/-- The files among the results, in order. -/
def found (path root : FilePath) (stream : List (Except WalkError WalkEntry)) : List FilePath :=
  stream.filterMap fun
    | .error _ => none
    | .ok entry => sourceFile path root entry

section

variable {walker : Walker} {path root : FilePath} {stream : List (Except WalkError WalkEntry)}

theorem found_ok (entry : WalkEntry) : found path root (.ok entry :: stream)
    = (sourceFile path root entry).toList ++ found path root stream := by
  cases hfile : sourceFile path root entry with
  | none => exact List.filterMap_cons_none hfile
  | some file => exact List.filterMap_cons_some hfile

theorem recorded_ok (entry : WalkEntry) : recorded walker (.ok entry :: stream)
    = (attachedError walker entry).toList ++ recorded walker stream := by
  cases herror : attachedError walker entry with
  | none => exact List.filterMap_cons_none herror
  | some error => exact List.filterMap_cons_some herror

/-- With the policy to continue the loop keeps everything. -/
theorem walkLoop_continue (files : List FilePath) (errors : List Anyhow) :
    walkLoop walker path root .ReportAndContinue stream files errors
      = .ok (files ++ found path root stream, errors ++ recorded walker stream) := by
  induction stream generalizing files errors with
  | nil => simp [walkLoop, found, recorded]
  | cons result rest ih =>
    cases result with
    | error error =>
      rw [walkLoop, ih, List.append_assoc]
      rfl
    | ok entry =>
      rw [walkLoop, found_ok, recorded_ok]
      cases attachedError walker entry with
      | none =>
        dsimp only
        rw [ih, List.append_assoc]
        rfl
      | some error =>
        dsimp only
        rw [ih, List.append_assoc, List.append_assoc]
        rfl

/-- With the policy to fail the loop ends at the first error, if there is one. -/
theorem walkLoop_fail (files : List FilePath) (errors : List Anyhow) :
    walkLoop walker path root .Fail stream files errors
      = match recorded walker stream with
        | [] => .ok (files ++ found path root stream, errors)
        | error :: _ => .error error := by
  induction stream generalizing files errors with
  | nil => simp [walkLoop, found, recorded]
  | cons result rest ih =>
    cases result with
    | error error => rfl
    | ok entry =>
      rw [walkLoop, found_ok, recorded_ok]
      cases attachedError walker entry with
      | none =>
        dsimp only
        rw [ih, List.append_assoc]
        rfl
      | some error => rfl

/-! ## A run over a directory -/

/-- What the two policies make of a stream. -/
theorem runDirectory_eq (walker : Walker) (excludes : walker.Gitignore) (path root : FilePath) :
    let stream := walker.walk root (admits walker excludes)
    let files := Keyed.sortBy FilePath.components (found path root stream)
    runDirectory walker excludes path root .ReportAndContinue
        = .ok { files, errors := recorded walker stream } ∧
      runDirectory walker excludes path root .Fail = match recorded walker stream with
        | [] => .ok { files, errors := [] }
        | error :: _ => .error error := by
  intro stream files
  refine ⟨?_, ?_⟩
  · rw [runDirectory, walkLoop_continue]
    rfl
  · rw [runDirectory, walkLoop_fail]
    show _ = match recorded walker stream with
      | [] => _
      | error :: _ => _
    cases recorded walker stream with
    | nil => rfl
    | cons error rest => rfl

theorem runDirectory_sorted {excludes : walker.Gitignore} {onError : WalkErrorPolicy}
    {discovery : Discovery} (h : runDirectory walker excludes path root onError = .ok discovery) :
    discovery.files = Keyed.sortBy FilePath.components
      (found path root (walker.walk root (admits walker excludes))) := by
  obtain ⟨hcontinue, hfail⟩ := runDirectory_eq walker excludes path root
  cases onError with
  | ReportAndContinue =>
    rw [hcontinue] at h
    rw [← Except.ok.inj h]
  | Fail =>
    rw [hfail] at h
    split at h
    · rw [← Except.ok.inj h]
    · cases h

end

/-! ## The extension of a file -/

/-- The extension tests of discovery and of the grammars agree. -/
theorem grammar_of_fromExtension {path : FilePath} {extension : String} {language : Language}
    (hextension : path.extension = some extension)
    (hlanguage : Language.fromExtension extension = some language) :
    ∃ grammar, Grammar.of path = some grammar := by
  rw [Grammar.of, hextension, Option.bind_some]
  unfold Language.fromExtension at hlanguage
  split at hlanguage
  · exact ⟨.Rust, rfl⟩
  · exact ⟨.TypeScript, rfl⟩
  · exact ⟨.TypeScript, rfl⟩
  · exact ⟨.TypeScript, rfl⟩
  · exact ⟨.Tsx, rfl⟩
  · cases hlanguage

/-- A rebased path has the extension of the entry, unless the entry is the root. -/
theorem extension_rebase {original root entry : FilePath} (hbelow : ¬entry.Same root)
    {extension : String} (hextension : entry.extension = some extension) :
    (rebase original root entry).extension = some extension := by
  have hself : (original.join entry).extension = some extension := by
    by_cases habsolute : entry.isAbsolute = true
    · rw [FilePath.join, if_pos habsolute, hextension]
    · rw [← hextension]
      apply FilePath.extension_congr
      rw [FilePath.inner_join original (Bool.eq_false_iff.mpr habsolute), List.getLast?_append,
        Option.or_of_isSome]
      exact List.getLast?_isSome.mpr (FilePath.inner_ne_nil hextension)
  unfold rebase
  cases hstrip : entry.stripPrefix root with
  | none => exact hself
  | some rel =>
    by_cases hroot : root.components = []
    · rw [FilePath.stripPrefix, if_pos hroot] at hstrip
      obtain rfl := Option.some.inj hstrip
      exact hself
    · obtain ⟨_, hrelative, _⟩ := FilePath.stripPrefix_spec hroot hstrip
      have hlast := FilePath.last_stripPrefix hroot hstrip hbelow
      rw [Option.getD_some, ← hextension]
      apply FilePath.extension_congr
      have hsome : entry.inner.getLast?.isSome = true :=
        List.getLast?_isSome.mpr (FilePath.inner_ne_nil hextension)
      rw [FilePath.inner_join original hrelative, List.getLast?_append, hlast,
        Option.or_of_isSome hsome]

/-- The walker gives its root as the file type that the root has. -/
def RootTyped (walker : Walker) : Prop :=
  ∀ root filter entry, .ok entry ∈ walker.walk root filter → entry.path.Same root →
    entry.fileType = some .File → walker.isFile root = true

theorem sourceFile_grammar {path root : FilePath} {entry : WalkEntry} {file : FilePath}
    (hbelow : entry.fileType = some .File → ¬entry.path.Same root)
    (h : sourceFile path root entry = some file) : ∃ grammar, Grammar.of file = some grammar := by
  unfold sourceFile at h
  split at h
  · rename_i htype
    split at h
    · cases h
    · rename_i extension hextension
      split at h
      · cases h
      · rename_i language hlanguage
        rw [← Option.some.inj h]
        exact grammar_of_fromExtension (extension_rebase (hbelow htype) hextension) hlanguage
  · cases h

/-- A file that is found has a grammar. -/
theorem found_grammar {walker : Walker} {path root : FilePath} {filter : WalkEntry → Bool}
    {file : FilePath} (htyped : RootTyped walker) (hroot : walker.isFile root = false)
    (h : file ∈ found path root (walker.walk root filter)) :
    ∃ grammar, Grammar.of file = some grammar := by
  obtain ⟨result, hmem, hfile⟩ := List.mem_filterMap.mp h
  cases result with
  | error e => cases hfile
  | ok entry =>
    refine sourceFile_grammar (fun htype hsame => ?_) hfile
    have htrue := htyped root filter entry hmem hsame htype
    rw [hroot] at htrue
    cases htrue

theorem runFile_grammar {path : FilePath} {discovery : Discovery} {file : FilePath}
    (h : runFile path = .ok discovery) (hfile : file ∈ discovery.files) :
    ∃ grammar, Grammar.of file = some grammar := by
  unfold runFile at h
  split at h
  · cases h
  · rename_i extension hextension
    split at h
    · cases h
    · rename_i language hlanguage
      rw [← Except.ok.inj h, List.mem_singleton] at hfile
      rw [hfile]
      exact grammar_of_fromExtension hextension hlanguage

end Discovery

end Stiles
