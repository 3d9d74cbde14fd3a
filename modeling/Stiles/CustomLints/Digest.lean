import Stiles.General.Text

/-
  The digest in the names that outlive a run (`digest.rs`): FNV-1a over the bytes of a text, as
  sixteen hexadecimal digits.
-/

namespace Stiles

def OFFSET : UInt64 := 0xcbf29ce484222325

def PRIME : UInt64 := 0x00000100000001b3

/-- One turn of the loop. -/
def hashByte (hash : UInt64) (byte : UInt8) : UInt64 :=
  (hash ^^^ byte.toUInt64) * PRIME

def digest (text : String) : String :=
  String.ofList (Text.hexFixed 16 (text.toUTF8.toList.foldl hashByte OFFSET).toNat)

/-- `{value:016x}`. -/
def hex64 (value : UInt64) : String :=
  String.ofList (Text.hexFixed 16 value.toNat)

theorem digest_length (text : String) : (digest text).toList.length = 16 := by
  rw [digest, String.toList_ofList, Text.length_hexFixed]

theorem digest_isHexDigit (text : String) : ∀ c ∈ (digest text).toList, Text.isHexDigit c := by
  intro c hc
  rw [digest, String.toList_ofList] at hc
  exact Text.isHexDigit_of_mem_hexFixed hc

theorem hex64_injective : Function.Injective hex64 := by
  intro a b h
  have hdigits : Text.hexFixed 16 a.toNat = Text.hexFixed 16 b.toNat := by
    simpa [hex64] using congrArg String.toList h
  exact UInt64.toNat_inj.mp (Text.hexFixed_inj (UInt64.toNat_lt a) (UInt64.toNat_lt b) hdigits)

theorem hex64_isHexDigit (value : UInt64) : ∀ c ∈ (hex64 value).toList, Text.isHexDigit c := by
  intro c hc
  rw [hex64, String.toList_ofList] at hc
  exact Text.isHexDigit_of_mem_hexFixed hc

/-- Later releases and other platforms write this name. -/
example : digest "https://example.com/rules" = "cc3eedebbb64629b" := by
  decide +kernel

end Stiles
