import Mathlib.Algebra.Group.Nat.Defs
import Mathlib.Data.List.Flatten

/-
  Codes that say where they end, and numbers as bytes.

  A code is `SelfDelimiting` if two texts that each start with a code start with the same one and go
  on alike. Such codes can be put one after the other: the text gives them back.

  * `flatMap_inj`: a text of codes is known from one list only.
  * `bytesLE_inj`: a number below `256 ^ width` is known from its bytes.
  * `ofBytesLE_bytesLE`: and it is read back from them.
  * `prefixed_selfDelimiting`: a run of bytes behind its length is such a code.
-/

namespace Framing

variable {α β : Type*}

/-- A text tells where the code ends that it starts with. -/
def SelfDelimiting (p : α → Prop) (code : α → List β) : Prop :=
  ∀ a b, p a → p b → ∀ s t, code a ++ s = code b ++ t → a = b ∧ s = t

/-- Codes one after the other. -/
theorem flatMap_inj {p : α → Prop} {code : α → List β} (hcode : SelfDelimiting p code)
    (hne : ∀ a, code a ≠ []) {l l' : List α} (hl : ∀ a ∈ l, p a) (hl' : ∀ a ∈ l', p a)
    (h : l.flatMap code = l'.flatMap code) : l = l' := by
  induction l generalizing l' with
  | nil =>
    cases l' with
    | nil => rfl
    | cons b l' =>
      have hnil : code b ++ l'.flatMap code = [] := h.symm
      exact absurd (List.append_eq_nil_iff.mp hnil).1 (hne b)
  | cons a l ih =>
    cases l' with
    | nil =>
      have hnil : code a ++ l.flatMap code = [] := h
      exact absurd (List.append_eq_nil_iff.mp hnil).1 (hne a)
    | cons b l' =>
      obtain ⟨ha, hrest⟩ := List.forall_mem_cons.mp hl
      obtain ⟨hb, hrest'⟩ := List.forall_mem_cons.mp hl'
      rw [List.flatMap_cons, List.flatMap_cons] at h
      obtain ⟨rfl, htail⟩ := hcode a b ha hb _ _ h
      rw [ih hrest hrest' htail]

/-! ## Numbers as bytes -/

/-- The lowest bytes of a number, the lowest first. -/
def bytesLE : Nat → Nat → List UInt8
  | 0, _ => []
  | width + 1, n => UInt8.ofNat n :: bytesLE width (n / 256)

theorem length_bytesLE (width n : Nat) : (bytesLE width n).length = width := by
  induction width generalizing n with
  | zero => rfl
  | succ width ih => rw [bytesLE, List.length_cons, ih]

theorem bytesLE_inj {width m n : Nat} (hm : m < 256 ^ width) (hn : n < 256 ^ width)
    (h : bytesLE width m = bytesLE width n) : m = n := by
  induction width generalizing m n with
  | zero =>
    rw [Nat.pow_zero] at hm hn
    omega
  | succ width ih =>
    obtain ⟨hlow, hhigh⟩ := List.cons.inj h
    have hmod : m % 256 = n % 256 := by
      have hbytes := congrArg UInt8.toNat hlow
      rwa [UInt8.toNat_ofNat', UInt8.toNat_ofNat'] at hbytes
    rw [Nat.pow_succ] at hm hn
    have hdiv : m / 256 = n / 256 := ih (by omega) (by omega) hhigh
    omega

/-- The number that the bytes spell, the lowest first. -/
def ofBytesLE : List UInt8 → Nat
  | [] => 0
  | byte :: bytes => byte.toNat + 256 * ofBytesLE bytes

theorem ofBytesLE_bytesLE {width n : Nat} (h : n < 256 ^ width) :
    ofBytesLE (bytesLE width n) = n := by
  induction width generalizing n with
  | zero =>
    rw [Nat.pow_zero] at h
    show 0 = n
    omega
  | succ width ih =>
    rw [Nat.pow_succ] at h
    rw [bytesLE, ofBytesLE, ih (by omega), UInt8.toNat_ofNat']
    omega

/-! ## Runs behind their length -/

/-- A run of bytes with its length, in a fixed width, ahead of it. -/
def prefixed (width : Nat) (run : List UInt8) : List UInt8 :=
  bytesLE width run.length ++ run

theorem prefixed_selfDelimiting (width : Nat) :
    SelfDelimiting (fun run : List UInt8 => run.length < 256 ^ width) (prefixed width) := by
  intro run other hrun hother s t h
  unfold prefixed at h
  rw [List.append_assoc, List.append_assoc] at h
  have hwidths : (bytesLE width run.length).length = (bytesLE width other.length).length := by
    rw [length_bytesLE, length_bytesLE]
  obtain ⟨hlengths, hrest⟩ := List.append_inj h hwidths
  exact List.append_inj hrest (bytesLE_inj hrun hother hlengths)

end Framing
