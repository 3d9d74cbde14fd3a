import Mathlib.Data.List.Basic

/-
  Paths, as their text (`std::path::Path` with forward slashes).

  `FilePath.extension` is `Path::extension`: the part of the file name after its last dot, unless
  the name has no dot or only a leading one.
-/

namespace Stiles

structure FilePath where
  text : String
deriving DecidableEq, Repr

/-- The last component of a path, unless it is `..`. Empty components and `.` do not count. -/
def FilePath.fileName (path : FilePath) : Option (List Char) :=
  match ((path.text.toList.splitOn '/').filter fun part => part ≠ [] ∧ part ≠ ['.']).getLast? with
  | some ['.', '.'] => none
  | name => name

def FilePath.extension (path : FilePath) : Option String :=
  path.fileName.bind fun name =>
    match name.reverse.dropWhile (· ≠ '.') with
    | [] => none
    | [_] => none
    | _ => some (String.ofList (name.reverse.takeWhile (· ≠ '.')).reverse)

end Stiles
