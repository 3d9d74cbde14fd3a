import Stiles.CustomLints.Artifact
import Stiles.CustomLints.LoadLibrary
import Stiles.CustomLints.Sources
import Stiles.CustomLints.StilesPatch
import Stiles.General.Journal
import Stiles.General.Keyed
import Stiles.General.Text
import Mathlib.Data.Finset.Sort
import Mathlib.Data.Prod.Lex
import Mathlib.Order.Lex

/-
  Loading the lints of a project (`CustomLints::load` in `custom_lints.rs`), behind the resolution
  of its sources.

  Each source is built by cargo or was built by a publisher, and each library it has is opened
  (`openLibrary`). The journal of a load holds the commands it runs and what it touches of the
  libraries, in order. What a command prints and what a library holds may depend on all of it.
-/

namespace Stiles

namespace LoadLints

open Journal (Prog)
open Resolve (Locking Contents Resolved)

variable {D : DecorationTypes}

/-! ## The machine -/

structure Command where
  arguments : List String
  directory : FilePath
deriving DecidableEq, Repr

/-- What a command leaves. `stdout` is what `String::from_utf8` makes of the bytes. -/
structure CommandOutput where
  success : Bool
  stdout : AnyhowResult String
  stderr : String

inductive Asked where
  | command (command : Command)
  | touch (library : FilePath) (touch : Touch)
deriving DecidableEq, Repr

/-- What a load asks of the machine. Each answer comes with the journal before it. -/
structure Machine (D : DecorationTypes) where
  dllExtension : String
  output : List Asked → Command → AnyhowResult CommandOutput
  parseMetadata : String → AnyhowResult StilesPatch.Metadata
  readMessage : String → AnyhowResult Artifact.BuildMessage
  canonicalize : List Asked → FilePath → AnyhowResult FilePath
  readDir : List Asked → FilePath → AnyhowResult (List (AnyhowResult FilePath))
  isFile : List Asked → FilePath → Bool
  opened : List Asked → FilePath → AnyhowResult (Image D)

/-- `with_context` around a part of a load. -/
def context {α : Type*} (message : String) (p : Prog Asked Anyhow α) : Prog Asked Anyhow α :=
  p.mapError fun e => e.context message

theorem context_error {α : Type*} {message : String} {p : Prog Asked Anyhow α} {j : List Asked}
    {e : Anyhow} (h : (p j).1 = .error e) : (context message p j).1 = .error (e.context message) := by
  show (p j).1.mapError _ = _
  rw [h]
  rfl

theorem context_ok {α : Type*} {message : String} {p : Prog Asked Anyhow α} {j j' : List Asked}
    {a : α} : context message p j = (.ok a, j') ↔ p j = (.ok a, j') := by
  show ((p j).1.mapError _, (p j).2) = _ ↔ _
  rw [Prod.ext_iff, Prod.ext_iff, mapError_eq_ok]

/-! ## Building a source -/

/-- The order that the derive compares patches by. -/
def patchKey (patch : StilesPatch) : List String ×ₗ String :=
  toLex (match patch.table with
    | .CratesIo => []
    | .Git url => [url], patch.crateName)

theorem patchKey_injective : Function.Injective patchKey := by
  intro a b h
  obtain ⟨table, crateName⟩ := a
  obtain ⟨table', crateName'⟩ := b
  have hpair := Prod.ext_iff.mp (toLex_inj.mp h)
  cases table <;> cases table' <;> simp_all

/-- The patches in the order of their `BTreeSet`. -/
def inOrder (patches : Finset StilesPatch) : List StilesPatch :=
  letI := LinearOrder.lift' patchKey patchKey_injective
  patches.sort (· ≤ ·)

section

variable (machine : Machine D) (directory : FilePath)

def metadataCommand : Command := ⟨["metadata", "--format-version", "1", "--no-deps"], directory⟩

def readPatches (output : CommandOutput) : AnyhowResult (List StilesPatch) :=
  if !output.success then
    .error (.msg ("cargo metadata failed: " ++
      String.ofList (Text.trim Text.isWhitespace output.stderr.toList)))
  else do
    let stdout ← withContext "cargo metadata wrote invalid UTF-8" output.stdout
    let patches ← withContext "failed to read the output of cargo metadata"
      (StilesPatch.planPatches machine.parseMetadata stdout)
    return inOrder patches

def loadPatches : Prog Asked Anyhow (List StilesPatch) :=
  (Prog.ask (.command (metadataCommand directory)) fun j =>
    withContext "failed to run cargo metadata" (machine.output j (metadataCommand directory))).andThen
  fun output => Prog.lift (readPatches machine output)

/-- The arguments of `cargo build`. -/
def buildArguments (locking : Locking) (stilesSource : Option FilePath)
    (patches : List StilesPatch) : List String :=
  ["build", "--release", "--message-format=json-render-diagnostics"] ++
    (match locking, stilesSource with
    | .Locked, none => ["--locked"]
    | .Locked, some _ => []
    | .Unlocked, _ => []) ++
    match stilesSource with
    | none => []
    | some source => patches.flatMap fun patch => ["--config", patch.config source]

/-- The dynamic libraries that a build printed. -/
def readBuild (j : List Asked) (output : CommandOutput) : AnyhowResult (List FilePath) :=
  if !output.success then .error (.msg "cargo build failed")
  else do
    let stdout ← withContext "cargo build wrote invalid UTF-8" output.stdout
    Artifact.cdylibArtifacts machine.readMessage (machine.canonicalize j) machine.dllExtension
      stdout directory

/-- `load_patches`, where the configuration names a stiles source. -/
def patchesFor : Option FilePath → Prog Asked Anyhow (List StilesPatch)
  | none => Prog.lift (.ok [])
  | some _ => context "failed to find the stiles crates that the lints depend on"
      (loadPatches machine directory)

def build (locking : Locking) (stilesSource : Option FilePath) :
    Prog Asked Anyhow (List FilePath) :=
  (patchesFor machine directory stilesSource).andThen fun patches =>
    let command := ⟨buildArguments locking stilesSource patches, directory⟩
    (Prog.ask (.command command) fun j =>
      withContext "failed to run cargo build" (machine.output j command)).andThen
    fun output => Prog.look fun j => readBuild machine directory j output

/-! ## The libraries of a publisher -/

/-- The loop over the entries of a directory. -/
def libraryEntries (j : List Asked) : List (AnyhowResult FilePath) → AnyhowResult (List FilePath)
  | [] => .ok []
  | entry :: rest => do
    let path ← withContext ("failed to read an entry of " ++ directory.text) entry
    let libraries ← libraryEntries j rest
    if Artifact.isLibrary machine.dllExtension path && machine.isFile j path then
      return path :: libraries
    else return libraries

/-- `prebuilt::libraries`. -/
def libraries (j : List Asked) : AnyhowResult (List FilePath) := do
  let entries ← withContext ("failed to read " ++ directory.text) (machine.readDir j directory)
  let libraries ← libraryEntries machine directory j entries
  return Keyed.sortBy FilePath.components libraries

/-- The libraries that `load_prebuilt` opens. -/
def prebuiltLibraries (j : List Asked) : AnyhowResult (List FilePath) := do
  let libraries ← withContext ("failed to list the libraries at " ++ directory.text)
    (libraries machine directory j)
  if libraries.isEmpty then
    .error (.msg ("the directory holds no dynamic library; delete it and run stiles again to " ++
      "replace it"))
  else return libraries

/-! ## Loading -/

variable (host : AbiIdentity)

def loadLibrary (path : FilePath) : Prog Asked Anyhow (List (LoadedLint D)) :=
  Prog.tell fun j =>
    let (touched, result) := openLibrary host path (machine.opened j path)
    (touched.map (.touch path), result)

def loadLibraries (paths : List FilePath) : Prog Asked Anyhow (List (LoadedLint D)) :=
  Prog.each (fun path => context ("failed to load " ++ path.text) (loadLibrary machine host path))
    paths

def loadSources (locking : Locking) (stilesSource : Option FilePath) :
    Prog Asked Anyhow (List (LoadedLint D)) :=
  (context ("failed to build the lints at " ++ directory.text)
    (build machine directory locking stilesSource)).andThen (loadLibraries machine host)

def loadPrebuilt : Prog Asked Anyhow (List (LoadedLint D)) :=
  (Prog.look (prebuiltLibraries machine directory)).andThen (loadLibraries machine host)

end

section

variable (machine : Machine D) (host : AbiIdentity) (stilesSource : Option FilePath)

/-- One source that was resolved. -/
def loadResolved (source : Resolved) : Prog Asked Anyhow (List (LoadedLint D)) :=
  match source.contents with
  | .Sources locking =>
    context ("failed to load the custom lints at " ++ source.directory.text)
      (loadSources machine source.directory host locking stilesSource)
  | .Libraries =>
    context ("failed to load the prebuilt lints at " ++ source.directory.text)
      (loadPrebuilt machine source.directory host)

/-- `CustomLints::load`, with the sources that the configuration resolved to. -/
def load (resolved : AnyhowResult (List Resolved)) : Prog Asked Anyhow (CustomLints D) :=
  (Prog.lift (withContext "failed to resolve the configured lint sources" resolved)).andThen
  fun sources => (Prog.each (loadResolved machine host stilesSource) sources).andThen
  fun lints => Prog.lift (withContext "failed to check the rules that the lints declare"
    ((refuseSharedRules lints).map fun _ => { lints }))

end

end LoadLints

end Stiles
