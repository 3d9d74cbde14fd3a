import Mathlib.Data.List.Basic

/-
  The commit that a git lint source is pinned to (`git_rev.rs`): a full SHA-1 hash in lower case.
-/

namespace Stiles

def HASH_LENGTH : Nat := 40

/-- The two checks of `GitRev::new`. -/
def isHash (rev : String) : Bool :=
  rev.utf8ByteSize = HASH_LENGTH && rev.toList.all fun character =>
    character.isDigit || ('a' ≤ character && character ≤ 'f')

structure GitRev where
  text : String
  accepted : isHash text = true
deriving DecidableEq, Repr

end Stiles
