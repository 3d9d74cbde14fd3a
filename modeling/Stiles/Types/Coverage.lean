import Stiles.Types.Errors
import Stiles.Types.DecoratedTree

/-
  What a decoration provider answers for a file (`coverage.rs`, `coverage_gap.rs`,
  `uncovered_file.rs`, `decoration_provider.rs`).

  `Coverage.Covered` carries the decorations that the provider recorded. A `CoverageGap` is a
  reason to decline, with the remedy that `help` names.
-/

namespace Stiles

variable {D : DecorationTypes}

structure ProviderName where
  name : String
deriving DecidableEq, Repr

inductive CoverageGap where
  | OutsideRoot (root : FilePath)
  | Unreachable (root : FilePath)
  | ExcludedByToolchain (root : FilePath)
  | StaleSource
  | NoProject
deriving DecidableEq, Repr

namespace CoverageGap

/-- The remedy for the gap, which does not depend on the file. -/
def help : CoverageGap → String
  | .OutsideRoot _ =>
    "check the file from inside its own project, or exclude it from stiles"
  | .Unreachable _ =>
    "reference the file from a source the toolchain already loads, or exclude it from stiles"
  | .ExcludedByToolchain _ =>
    "remove the file from the toolchain's exclusion list, or exclude it from stiles"
  | .StaleSource => "re-run stiles"
  | .NoProject =>
    "add the project file the toolchain reads, such as tsconfig.json, at or above the file, " ++
      "or exclude it from stiles"

def display : CoverageGap → String
  | .OutsideRoot root =>
    "the file is outside " ++ root.text ++ ", the root the provider loaded"
  | .Unreachable root =>
    "the file is inside " ++ root.text ++ ", but nothing the toolchain loaded reaches it"
  | .ExcludedByToolchain root =>
    "the toolchain loaded at " ++ root.text ++ " was configured to exclude this file"
  | .StaleSource => "the text stiles parsed differs from the text the toolchain analyzed"
  | .NoProject => "no project file at or above the file names a project to analyze it in"

end CoverageGap

/-- A file that no provider covers, with the reason of each provider. -/
structure UncoveredFile where
  file : FilePath
  gaps : List (ProviderName × CoverageGap)
deriving DecidableEq, Repr

def UncoveredFile.display (uncovered : UncoveredFile) : String :=
  match uncovered.gaps with
  | [] => "no decoration providers were configured, so no file can be analyzed"
  | gaps =>
    "no decoration provider covers this file, so semantic rules cannot run" ++
      String.join (gaps.map fun gap => "\n  " ++ gap.1.name ++ ": " ++ gap.2.display)

inductive DecorateTreeError where
  | UnresolvablePath (path : FilePath) (source : IoError)
  | PoisonedDatabase
deriving DecidableEq, Repr

/-- The message of the error and those of its causes. -/
def DecorateTreeError.chain : DecorateTreeError → List String
  | .UnresolvablePath path source =>
    ["failed to resolve " ++ path.text ++ " to an absolute path", source.message]
  | .PoisonedDatabase =>
    ["the provider's database is poisoned, because a thread panicked while it held the lock"]

inductive Coverage (D : DecorationTypes) where
  | Covered (decorations : DecorationMap D)
  | NotCovered (gap : CoverageGap)

namespace Coverage

def decorations? : Coverage D → Option (DecorationMap D)
  | .Covered decorations => some decorations
  | .NotCovered _ => none

def gap? : Coverage D → Option CoverageGap
  | .Covered _ => none
  | .NotCovered gap => some gap

end Coverage

/-- A provider. `decorate` reads the parsed file, which carries no decorations yet. A provider that
    walks the tree makes it seal its index on the way (`walksTree`). -/
structure DecorationProvider (D : DecorationTypes) where
  name : ProviderName
  decorate : DecoratedTree D → Except DecorateTreeError (Coverage D)
  walksTree : Bool

end Stiles
