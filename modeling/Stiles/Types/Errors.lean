import Stiles.Types.Diagnostic

/-
  Errors with a chain of causes (`anyhow::Error`, `std::io::Error`).

  An `Anyhow` is its own message and the messages of its causes, the nearest first. Only its text
  reaches a user: `alternate` is what `{:#}` prints.
-/

namespace Stiles

/-- An error of the operating system, as its text. -/
structure IoError where
  message : String
deriving DecidableEq, Repr

structure Anyhow where
  message : String
  causes : List String
deriving DecidableEq, Repr

namespace Anyhow

/-- `anyhow!` and `bail!`: a message with no cause. -/
def msg (message : String) : Anyhow := { message, causes := [] }

/-- `Context::context`: a message in front of the chain. -/
def context (e : Anyhow) (message : String) : Anyhow :=
  { message, causes := e.message :: e.causes }

/-- The whole chain in one line. -/
def alternate (e : Anyhow) : String := ": ".intercalate (e.message :: e.causes)

end Anyhow

/-- `anyhow::Result`. -/
abbrev AnyhowResult (α : Type*) := Except Anyhow α

/-- `Context::context` on a result. -/
def withContext {α : Type*} (message : String) (result : AnyhowResult α) : AnyhowResult α :=
  result.mapError (·.context message)

@[simp] theorem withContext_ok {α : Type*} (message : String) (a : α) :
    withContext message (.ok a) = .ok a := rfl

@[simp] theorem withContext_error {α : Type*} (message : String) (e : Anyhow) :
    withContext message (.error e : AnyhowResult α) = .error (e.context message) := rfl

theorem withContext_eq_ok {α : Type*} {message : String} {result : AnyhowResult α} {a : α} :
    withContext message result = .ok a ↔ result = .ok a := by
  cases result <;> simp

theorem mapError_eq_ok {α ε ε' : Type*} {result : Except ε α} {f : ε → ε'} {a : α} :
    result.mapError f = .ok a ↔ result = .ok a := by
  cases result <;> simp [Except.mapError]

theorem map_eq_ok {α β ε : Type*} {result : Except ε α} {f : α → β} {b : β} :
    result.map f = .ok b ↔ ∃ a, result = .ok a ∧ f a = b := by
  cases result <;> simp [Except.map]

theorem bind_ok_iff {α β ε : Type*} {result : Except ε α} {f : α → Except ε β} {b : β} :
    result.bind f = .ok b ↔ ∃ a, result = .ok a ∧ f a = .ok b := by
  cases result <;> simp [Except.bind]

end Stiles
