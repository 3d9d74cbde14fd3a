import Stiles.General.Text
import Mathlib.Order.Defs.PartialOrder

/-
  The version of the plugin boundary (`plugin/abi_version.rs`).

  Versions are ordered by major and then by minor, as the derived `Ord` of the struct compares its
  fields. Before 1.0 the floor of a version is the version itself, and from 1.0 its major.

  * `accepts_iff`: a host accepts exactly the versions of its own floor that are not newer.
-/

namespace Stiles

structure AbiVersion where
  major : UInt32
  minor : UInt32
deriving DecidableEq, Repr

namespace AbiVersion

/-- The order of the pair (major, minor). -/
instance instLEAbiVersion : LE AbiVersion :=
  ⟨fun a b => a.major < b.major ∨ a.major = b.major ∧ a.minor ≤ b.minor⟩

instance decidableLE (a b : AbiVersion) : Decidable (a ≤ b) :=
  inferInstanceAs (Decidable (a.major < b.major ∨ a.major = b.major ∧ a.minor ≤ b.minor))

theorem le_iff {a b : AbiVersion} : a ≤ b ↔ a.major.toNat < b.major.toNat ∨
    a.major.toNat = b.major.toNat ∧ a.minor.toNat ≤ b.minor.toNat := by
  show a.major < b.major ∨ a.major = b.major ∧ a.minor ≤ b.minor ↔ _
  rw [UInt32.lt_iff_toNat_lt, UInt32.le_iff_toNat_le, UInt32.toNat_inj]

theorem eq_iff {a b : AbiVersion} :
    a = b ↔ a.major.toNat = b.major.toNat ∧ a.minor.toNat = b.minor.toNat := by
  rw [AbiVersion.mk.injEq, UInt32.toNat_inj, UInt32.toNat_inj]

instance instPartialOrderAbiVersion : PartialOrder AbiVersion where
  le_refl := by
    intro a
    rw [le_iff]
    omega
  le_trans := by
    intro a b c
    rw [le_iff, le_iff, le_iff]
    omega
  le_antisymm := by
    intro a b
    rw [le_iff, le_iff, eq_iff]
    omega

theorem lt_iff {a b : AbiVersion} : a < b ↔ a.major.toNat < b.major.toNat ∨
    a.major.toNat = b.major.toNat ∧ a.minor.toNat < b.minor.toNat := by
  rw [lt_iff_le_not_ge, le_iff, le_iff]
  omega

/-- The oldest version that a reader of this one reads. -/
def floor (self : AbiVersion) : AbiVersion :=
  if self.major = 0 then self else { self with minor := 0 }

def accepts (self plugin : AbiVersion) : Bool :=
  decide (self.floor ≤ plugin) && decide (plugin ≤ self)

def display (self : AbiVersion) : String :=
  self.major.toNat.repr ++ "." ++ self.minor.toNat.repr

@[simp]
theorem floor_major (self : AbiVersion) : self.floor.major = self.major := by
  rw [floor]
  split <;> rfl

theorem floor_minor (self : AbiVersion) :
    self.floor.minor.toNat = if self.major.toNat = 0 then self.minor.toNat else 0 := by
  have hzero : self.major = 0 ↔ self.major.toNat = 0 := by
    rw [← UInt32.toNat_inj]
    rfl
  rw [floor]
  by_cases h : self.major = 0
  · rw [if_pos h, if_pos (hzero.mp h)]
  · rw [if_neg h, if_neg (fun h' => h (hzero.mpr h'))]
    rfl

/-- A host accepts the versions of its own floor that are not newer. -/
theorem accepts_iff (host plugin : AbiVersion) :
    host.accepts plugin = true ↔ host.floor = plugin.floor ∧ plugin ≤ host := by
  rw [accepts, Bool.and_eq_true, decide_eq_true_iff, decide_eq_true_iff, le_iff, le_iff, eq_iff,
    floor_major, floor_major, floor_minor, floor_minor]
  by_cases hmajor : host.major.toNat = 0
  · rw [if_pos hmajor]
    split <;> omega
  · rw [if_neg hmajor]
    split <;> omega

/-! ## The text of a version -/

theorem dot_not_mem_repr (n : Nat) : '.' ∉ n.repr.toList := Text.not_mem_repr n (by decide)

theorem display_injective : Function.Injective display := by
  intro a b h
  have hchars : a.major.toNat.repr.toList ++ '.' :: a.minor.toNat.repr.toList
      = b.major.toNat.repr.toList ++ '.' :: b.minor.toNat.repr.toList := by
    simpa [display] using congrArg String.toList h
  obtain ⟨hmajor, hminor⟩ :=
    Text.append_sep_inj (dot_not_mem_repr _) (dot_not_mem_repr _) hchars
  exact eq_iff.mpr ⟨Text.repr_inj (String.toList_injective hmajor),
    Text.repr_inj (String.toList_injective hminor)⟩

end AbiVersion

end Stiles
