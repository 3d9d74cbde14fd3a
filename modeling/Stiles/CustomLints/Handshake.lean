import Stiles.CustomLints.Digest
import Stiles.Plugin.AbiVersion

/-
  Whether a plugin fits the host (`handshake.rs`), and the name under which the host looks for an
  archive that fits (`abi_tag.rs`).

  `validate` compares two identities when a library is loaded. `AbiTag.new` puts the digest of one
  identity into a name, before anything is downloaded.

  * `keyText_inj`: the text that goes to the digest is known from the floor and the fingerprints.
  * `validate_iff_key`: the comparison and the name agree, up to a plugin that is newer.
-/

namespace Stiles

structure AbiIdentity where
  abiVersion : AbiVersion
  typesFingerprint : UInt64
  languageFingerprint : UInt64
deriving DecidableEq, Repr

/-! ## The handshake -/

inductive HandshakeMismatch where
  | AbiVersion (plugin host : AbiVersion)
  | TypesFingerprint
  | LanguageFingerprint
deriving DecidableEq, Repr

def HandshakeMismatch.display : HandshakeMismatch → String
  | .AbiVersion plugin host =>
    let accepted :=
      if host.floor = host then host.display else host.floor.display ++ "-" ++ host.display
    "plugin (ABI " ++ plugin.display ++ ") incompatible with stiles (ABI " ++ accepted ++ ")"
  | .TypesFingerprint => "plugin built against another stiles-types; match its stiles pin"
  | .LanguageFingerprint => "plugin built against another stiles-rust; match its stiles pin"

def validate (host plugin : AbiIdentity) : Except HandshakeMismatch Unit :=
  if !host.abiVersion.accepts plugin.abiVersion then
    .error (.AbiVersion plugin.abiVersion host.abiVersion)
  else if host.typesFingerprint ≠ plugin.typesFingerprint then
    .error .TypesFingerprint
  else if host.languageFingerprint ≠ plugin.languageFingerprint then
    .error .LanguageFingerprint
  else
    .ok ()

theorem validate_ok_iff (host plugin : AbiIdentity) : validate host plugin = .ok () ↔
    host.abiVersion.accepts plugin.abiVersion = true ∧
      host.typesFingerprint = plugin.typesFingerprint ∧
      host.languageFingerprint = plugin.languageFingerprint := by
  rw [validate]
  cases host.abiVersion.accepts plugin.abiVersion with
  | false => simp
  | true =>
    by_cases htypes : host.typesFingerprint = plugin.typesFingerprint
    · by_cases hlanguage : host.languageFingerprint = plugin.languageFingerprint
      · simp [htypes, hlanguage]
      · simp [htypes, hlanguage]
    · simp [htypes]

/-! ## The name of an archive -/

/-- The values that the digest of a tag covers, as the text that goes to it. -/
def keyText (floor : AbiVersion) (typesFingerprint languageFingerprint : UInt64) : String :=
  floor.display ++ "\n" ++ hex64 typesFingerprint ++ "\n" ++ hex64 languageFingerprint

/-- The text that an identity gives to the digest. -/
def AbiIdentity.key (identity : AbiIdentity) : String :=
  keyText identity.abiVersion.floor identity.typesFingerprint identity.languageFingerprint

structure AbiTag where
  text : String
deriving DecidableEq, Repr

def AbiTag.new (identity : AbiIdentity) (target : String) : AbiTag :=
  ⟨digest identity.key ++ "-" ++ target⟩

theorem newline_not_mem_display (version : AbiVersion) : '\n' ∉ version.display.toList := by
  have hnewline : ∀ n : Nat, '\n' ∉ n.repr.toList := fun n => Text.not_mem_repr n (by decide)
  have hdot : '\n' ∉ (".").toList := by decide
  rw [AbiVersion.display, Text.not_mem_append, Text.not_mem_append]
  exact ⟨⟨hnewline _, hdot⟩, hnewline _⟩

theorem newline_not_mem_hex64 (value : UInt64) : '\n' ∉ (hex64 value).toList := fun h =>
  absurd (hex64_isHexDigit value _ h) (by decide)

theorem keyText_inj {floor floor' : AbiVersion} {types types' language language' : UInt64} :
    keyText floor types language = keyText floor' types' language'
      ↔ floor = floor' ∧ types = types' ∧ language = language' := by
  constructor
  · intro h
    have hchars : floor.display.toList ++ '\n' ::
          ((hex64 types).toList ++ '\n' :: (hex64 language).toList)
        = floor'.display.toList ++ '\n' ::
          ((hex64 types').toList ++ '\n' :: (hex64 language').toList) := by
      simpa [keyText] using congrArg String.toList h
    obtain ⟨hfloor, hrest⟩ := Text.append_sep_inj (newline_not_mem_display floor)
      (newline_not_mem_display floor') hchars
    obtain ⟨htypes, hlanguage⟩ := Text.append_sep_inj (newline_not_mem_hex64 types)
      (newline_not_mem_hex64 types') hrest
    exact ⟨AbiVersion.display_injective (String.toList_injective hfloor),
      hex64_injective (String.toList_injective htypes),
      hex64_injective (String.toList_injective hlanguage)⟩
  · rintro ⟨rfl, rfl, rfl⟩
    rfl

/-- The handshake accepts a plugin of the same key that is not newer, and no other. -/
theorem validate_iff_key (host plugin : AbiIdentity) : validate host plugin = .ok () ↔
    host.key = plugin.key ∧ plugin.abiVersion ≤ host.abiVersion := by
  rw [validate_ok_iff, AbiVersion.accepts_iff, AbiIdentity.key, AbiIdentity.key, keyText_inj]
  tauto

/-- A digest has a fixed width, so a tag is known from its digest and its target. -/
theorem abiTag_inj {host plugin : AbiIdentity} {target target' : String} :
    AbiTag.new host target = AbiTag.new plugin target'
      ↔ digest host.key = digest plugin.key ∧ target = target' := by
  rw [AbiTag.new, AbiTag.new, AbiTag.mk.injEq]
  constructor
  · intro h
    have hchars : (digest host.key).toList ++ '-' :: target.toList
        = (digest plugin.key).toList ++ '-' :: target'.toList := by
      simpa using congrArg String.toList h
    have hlength : (digest host.key).toList.length = (digest plugin.key).toList.length := by
      rw [digest_length, digest_length]
    obtain ⟨hdigest, htarget⟩ := List.append_inj hchars hlength
    exact ⟨String.toList_injective hdigest,
      String.toList_injective (List.cons.inj htarget).2⟩
  · rintro ⟨hdigest, rfl⟩
    rw [hdigest]

/-! ## What a tag promises -/

/-- The handshake and the tag of the host agree. Where the digest does not collide on the two keys,
    an archive under the tag of the host that is not newer passes the handshake. One published
    under another key stands under another name, and does not pass. -/
theorem validate_agrees_with_tag (host plugin : AbiIdentity) :
    (validate host plugin = .ok () ↔ host.key = plugin.key ∧ plugin.abiVersion ≤ host.abiVersion) ∧
    (∀ (floor floor' : AbiVersion) (types types' language language' : UInt64),
      keyText floor types language = keyText floor' types' language'
        ↔ floor = floor' ∧ types = types' ∧ language = language') ∧
    ((digest host.key = digest plugin.key → host.key = plugin.key) → ∀ target target',
      (AbiTag.new host target = AbiTag.new plugin target' → plugin.abiVersion ≤ host.abiVersion →
        validate host plugin = .ok ()) ∧
      (plugin.key ≠ host.key → AbiTag.new host target ≠ AbiTag.new plugin target' ∧
        validate host plugin ≠ .ok ())) := by
  refine ⟨validate_iff_key host plugin, fun _ _ _ _ _ _ => keyText_inj, ?_⟩
  intro hcollide target target'
  constructor
  · intro htag hversion
    have hkey : host.key = plugin.key := hcollide (abiTag_inj.mp htag).1
    exact (validate_iff_key host plugin).mpr ⟨hkey, hversion⟩
  · intro hkey
    constructor
    · intro htag
      exact hkey (hcollide (abiTag_inj.mp htag).1).symm
    · intro hvalidate
      exact hkey ((validate_iff_key host plugin).mp hvalidate).1.symm

/-- A host of 1.4 and a plugin of 1.2 with its fingerprints. -/
theorem host_1_4_reads_1_2 :
    AbiTag.new ⟨⟨1, 4⟩, 0xaa, 0xbb⟩ "x86_64-unknown-linux-gnu"
        = AbiTag.new ⟨⟨1, 2⟩, 0xaa, 0xbb⟩ "x86_64-unknown-linux-gnu" ∧
      validate ⟨⟨1, 4⟩, 0xaa, 0xbb⟩ ⟨⟨1, 2⟩, 0xaa, 0xbb⟩ = .ok () := by
  have htag : AbiTag.new ⟨⟨1, 4⟩, 0xaa, 0xbb⟩ "x86_64-unknown-linux-gnu"
      = AbiTag.new ⟨⟨1, 2⟩, 0xaa, 0xbb⟩ "x86_64-unknown-linux-gnu" := by
    rfl
  have hcollide : digest (AbiIdentity.key ⟨⟨1, 4⟩, 0xaa, 0xbb⟩)
      = digest (AbiIdentity.key ⟨⟨1, 2⟩, 0xaa, 0xbb⟩) →
        AbiIdentity.key ⟨⟨1, 4⟩, 0xaa, 0xbb⟩ = AbiIdentity.key ⟨⟨1, 2⟩, 0xaa, 0xbb⟩ :=
    fun _ => by decide
  obtain ⟨_, _, hpromise⟩ := validate_agrees_with_tag ⟨⟨1, 4⟩, 0xaa, 0xbb⟩ ⟨⟨1, 2⟩, 0xaa, 0xbb⟩
  exact ⟨htag, (hpromise hcollide _ _).1 htag (by decide)⟩

end Stiles
