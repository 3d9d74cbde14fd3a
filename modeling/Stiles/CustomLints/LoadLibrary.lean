import Stiles.CustomLints.Handshake
import Stiles.CustomLints.Rules
import Stiles.General.Framing
import Stiles.Plugin.ExportLints

/-
  Opening a plugin (`load_library` and `abi_version` in `custom_lints.rs`, `declaration.rs`).

  The loader knows the address of the `stiles_plugin_declaration` static and nothing about its size.
  It reads one field after the other at the offset that this binary's `PluginDeclaration` gives it,
  and stops at the first that does not fit. `openLibrary` keeps what it touches: the reads, the call
  of `load`, and whether it unloads the library again. The memory is arbitrary.

  * `openLibrary_eq`: what is touched and what comes out, by how far the handshake gets.
  * `openLibrary_safe`: whatever a plugin's memory holds, no read goes past a static that is as long
    as its own version says, and `load` is called only behind a handshake that passed.
  * `exported_plugin_loads`: the declaration that `export_lints!` writes is read back field by field,
    and the plugin loads into exactly the hosts with its key that are not older.
-/

namespace Stiles

variable {D : DecorationTypes}

/-! ## The static of a plugin -/

/-- The memory from the address of a static on, and how much of it the static fills. -/
structure Static where
  memory : Nat → UInt8
  size : Nat

namespace Static

def bytes (static : Static) (offset width : Nat) : List UInt8 :=
  (List.range width).map fun i => static.memory (offset + i)

/-- A read of the integer at an offset, the lowest byte first. -/
def word (static : Static) (offset width : Nat) : Nat :=
  Framing.ofBytesLE (static.bytes offset width)

/-- The static holds these bytes and no others. -/
def Holds (static : Static) (content : List UInt8) : Prop :=
  static.size = content.length ∧ static.bytes 0 content.length = content

end Static

/-- The offsets of the fields of `PluginDeclaration`, which is `repr(C)`. -/
def typesFingerprintOffset : Nat := 8

def languageFingerprintOffset : Nat := 16

def loadOffset : Nat := 24

/-- The bytes of a `PluginDeclaration`, `load` by its address. -/
def declarationBytes (identity : AbiIdentity) (load : UInt64) : List UInt8 :=
  Framing.bytesLE 4 identity.abiVersion.major.toNat ++
    (Framing.bytesLE 4 identity.abiVersion.minor.toNat ++
    (Framing.bytesLE 8 identity.typesFingerprint.toNat ++
    (Framing.bytesLE 8 identity.languageFingerprint.toNat ++
    Framing.bytesLE 8 load.toNat)))

/-! ## Opening a library -/

/-- What a loaded library gives to the loader. -/
structure Image (D : DecorationTypes) where
  /-- What `dlsym` finds under `stiles_plugin_declaration`. -/
  declaration : Except String Static
  /-- What a call of the function at an address hands back. -/
  call : UInt64 → Except Panic (List (ExportedLint D))

inductive Touch where
  | read (offset width : Nat)
  | call (address : UInt64)
  | unload
deriving DecidableEq, Repr

def HandshakeMismatch.anyhow (mismatch : HandshakeMismatch) : Anyhow := .msg mismatch.display

/-- `abi_version`: the first eight bytes of the static, in one read. -/
def Static.abiVersion (static : Static) : AbiVersion :=
  ⟨UInt32.ofNat (static.word 0 4), UInt32.ofNat (static.word 4 4)⟩

/-- The identity that a static tells of its plugin. -/
def Static.identity (static : Static) : AbiIdentity where
  abiVersion := static.abiVersion
  typesFingerprint := UInt64.ofNat (static.word typesFingerprintOffset 8)
  languageFingerprint := UInt64.ofNat (static.word languageFingerprintOffset 8)

def Static.load (static : Static) : UInt64 := UInt64.ofNat (static.word loadOffset 8)

/-- The steps of `load_library` from the symbol on, with the lints the plugin hands over. -/
def readDeclaration (host : AbiIdentity) (image : Image D) (static : Static) :
    List Touch × AnyhowResult (List (ExportedLint D)) :=
  let version := static.abiVersion
  let touched := [Touch.read 0 8]
  if !host.abiVersion.accepts version then
    (touched, .error (HandshakeMismatch.AbiVersion version host.abiVersion).anyhow)
  else
    let touched := touched ++ [.read typesFingerprintOffset 8, .read languageFingerprintOffset 8]
    match validate host static.identity with
    | .error mismatch =>
      (touched, .error (mismatch.anyhow.context "failed the handshake with the plugin"))
    | .ok () =>
      let load := static.load
      let touched := touched ++ [.read loadOffset 8, .call load]
      match image.call load with
      | .error panic =>
        (touched, .error ⟨"the plugin panicked while listing what it exports", [panic.message]⟩)
      | .ok lints => (touched, .ok lints)

/-- `load_library`: the library is kept open when its lints are, and unloaded with every error. -/
def openLibrary (host : AbiIdentity) (path : FilePath) (opened : AnyhowResult (Image D)) :
    List Touch × AnyhowResult (List (LoadedLint D)) :=
  match withContext ("failed to open " ++ path.text) opened with
  | .error e => ([], .error e)
  | .ok image =>
    match image.declaration with
    | .error cause =>
      ([.unload], .error ⟨"the library is not a stiles lint plugin; export its lints with " ++
        "stiles_plugin::export_lints!", [cause]⟩)
    | .ok static =>
      let (touched, exports) := readDeclaration host image static
      match loadLibrary { path, exports } with
      | .error e => (touched ++ [.unload], .error e)
      | .ok lints => (touched, .ok lints)

/-! ## What the loader touches -/

/-- The three ways the loader goes: it reads the version and stops, it reads the fingerprints and
    stops, or the handshake passes and it calls `load`. An error of the handshake says what does not
    fit. -/
theorem readDeclaration_cases (host : AbiIdentity) (image : Image D) (static : Static) :
    let ran := readDeclaration host image static
    (∃ mismatch e, validate host static.identity = .error mismatch ∧ ran.2 = .error e ∧
      mismatch.display ∈ e.message :: e.causes ∧
      (ran.1 = [.read 0 8] ∨ host.abiVersion.accepts static.abiVersion = true ∧
        ran.1 = [.read 0 8, .read 8 8, .read 16 8])) ∨
    (validate host static.identity = .ok () ∧
      ran.1 = [.read 0 8, .read 8 8, .read 16 8, .read 24 8, .call static.load] ∧
      ran.2 = (image.call static.load).mapError fun panic =>
        ⟨"the plugin panicked while listing what it exports", [panic.message]⟩) := by
  intro ran
  cases haccepts : host.abiVersion.accepts static.abiVersion with
  | false =>
    have hran : ran = ([.read 0 8],
        .error (HandshakeMismatch.AbiVersion static.abiVersion host.abiVersion).anyhow) := by
      simp [ran, readDeclaration, haccepts]
    have hvalid : validate host static.identity =
        .error (.AbiVersion static.abiVersion host.abiVersion) := by
      rw [validate, show static.identity.abiVersion = static.abiVersion from rfl, haccepts]
      rfl
    rw [hran]
    exact Or.inl ⟨_, _, hvalid, rfl, List.mem_cons_self, Or.inl rfl⟩
  | true =>
    cases hvalid : validate host static.identity with
    | error mismatch =>
      have hran : ran = ([.read 0 8, .read 8 8, .read 16 8],
          .error (mismatch.anyhow.context "failed the handshake with the plugin")) := by
        simp [ran, readDeclaration, haccepts, hvalid, typesFingerprintOffset,
          languageFingerprintOffset]
      rw [hran]
      exact Or.inl ⟨_, _, rfl, rfl, List.mem_cons_of_mem _ List.mem_cons_self, Or.inr ⟨rfl, rfl⟩⟩
    | ok u =>
      refine Or.inr ⟨rfl, ?_⟩
      have hran : ran = ([.read 0 8, .read 8 8, .read 16 8, .read 24 8, .call static.load],
          (image.call static.load).mapError fun panic =>
            ⟨"the plugin panicked while listing what it exports", [panic.message]⟩) := by
        simp only [ran, readDeclaration, haccepts, hvalid, typesFingerprintOffset,
          languageFingerprintOffset, loadOffset]
        cases image.call static.load <;> rfl
      rw [hran]
      exact ⟨rfl, rfl⟩

theorem openLibrary_eq (host : AbiIdentity) (path : FilePath) {image : Image D} {static : Static}
    (hdeclaration : image.declaration = .ok static) :
    openLibrary host path (.ok image) =
      match loadLibrary ⟨path, (readDeclaration host image static).2⟩ with
      | .error e => ((readDeclaration host image static).1 ++ [.unload], .error e)
      | .ok lints => ((readDeclaration host image static).1, .ok lints) := by
  simp only [openLibrary, withContext_ok, hdeclaration]

theorem openLibrary_result (host : AbiIdentity) (path : FilePath) {image : Image D}
    {static : Static} (hdeclaration : image.declaration = .ok static) :
    (openLibrary host path (.ok image)).2 =
      loadLibrary ⟨path, (readDeclaration host image static).2⟩ := by
  rw [openLibrary_eq host path hdeclaration]
  split <;> rename_i hload <;> rw [hload]

/-- Apart from the unloading, only the declaration is touched. -/
theorem openLibrary_touched (host : AbiIdentity) (path : FilePath) {image : Image D}
    {static : Static} (hdeclaration : image.declaration = .ok static) {touch : Touch}
    (hne : touch ≠ .unload) (h : touch ∈ (openLibrary host path (.ok image)).1) :
    touch ∈ (readDeclaration host image static).1 := by
  rw [openLibrary_eq host path hdeclaration] at h
  split at h
  · rcases List.mem_append.mp h with h | h
    · exact h
    · exact absurd (List.mem_singleton.mp h) hne
  · exact h

/-- The loader calls nothing but what it read as `load`, and that only behind a handshake that
    passed. -/
theorem openLibrary_call {host : AbiIdentity} {path : FilePath} {opened : AnyhowResult (Image D)}
    {address : UInt64} (h : Touch.call address ∈ (openLibrary host path opened).1) :
    ∃ image static, opened = .ok image ∧ image.declaration = .ok static ∧
      address = static.load ∧ validate host static.identity = .ok () := by
  cases opened with
  | error e => cases h
  | ok image =>
    cases hdeclaration : image.declaration with
    | error cause =>
      simp only [openLibrary, withContext_ok, hdeclaration, List.mem_singleton, reduceCtorEq] at h
    | ok static =>
      refine ⟨image, static, rfl, hdeclaration, ?_⟩
      have hne : Touch.call address ≠ .unload := nofun
      have hmem := openLibrary_touched host path hdeclaration hne h
      rcases readDeclaration_cases host image static with
        ⟨-, -, -, -, -, htouched | ⟨-, htouched⟩⟩ | ⟨hvalid, htouched, -⟩
      · simp [htouched] at hmem
      · simp [htouched] at hmem
      · rw [htouched] at hmem
        simp only [List.mem_cons, List.not_mem_nil, or_false, Touch.call.injEq, reduceCtorEq,
          false_or] at hmem
        exact ⟨hmem, hvalid⟩

/-- How long the protocol of a version makes the static: every version starts with the version, and
    one that this host accepts has every field that the host reads. -/
structure StaticProtocol (host : AbiIdentity) (size : AbiVersion → Nat) : Prop where
  head : ∀ version, 8 ≤ size version
  whole : ∀ version, host.abiVersion.accepts version = true → loadOffset + 8 ≤ size version

/-- Whatever stands in a plugin's memory: if its static is as long as its version says, the loader
    reads nothing beyond it. It calls nothing but what it read as `load`, and that only when the
    handshake passed. A library is unloaded, as the last thing, with every error and only then, so
    lints that are kept never outlive their library. -/
theorem openLibrary_safe (host : AbiIdentity) (path : FilePath) (image : Image D)
    (static : Static) (hdeclaration : image.declaration = .ok static) :
    let ran := openLibrary host path (.ok image)
    (∀ size, StaticProtocol host size → size static.abiVersion ≤ static.size →
      ∀ offset width, Touch.read offset width ∈ ran.1 → offset + width ≤ static.size) ∧
    (∀ address, Touch.call address ∈ ran.1 →
      address = static.load ∧ validate host static.identity = .ok ()) ∧
    (∀ e, ran.2 = .error e → ∃ before, ran.1 = before ++ [.unload] ∧ .unload ∉ before) ∧
    (∀ lints, ran.2 = .ok lints → .unload ∉ ran.1) ∧
    ∀ lints, ran.2 = .ok lints ↔
      validate host static.identity = .ok () ∧ ∃ exported,
        image.call static.load = .ok exported ∧ exported ≠ [] ∧
        (∀ lint ∈ exported, lint.rules ≠ []) ∧
        lints = exported.map (ExportedLint.loaded path) := by
  intro ran
  have hran : ran = _ := openLibrary_eq host path hdeclaration
  have htouch : ∀ touch, touch ≠ .unload → touch ∈ ran.1 →
      touch ∈ (readDeclaration host image static).1 :=
    fun touch => openLibrary_touched host path hdeclaration
  have hcases := readDeclaration_cases host image static
  generalize readDeclaration host image static = read at hran htouch hcases
  obtain ⟨touched, exports⟩ := read
  dsimp only at hran htouch hcases
  have hnot : Touch.unload ∉ touched := by
    rcases hcases with ⟨-, -, -, -, -, htouched | ⟨-, htouched⟩⟩ | ⟨-, htouched, -⟩ <;>
      simp [htouched]
  refine ⟨?_, ?_, ?_, ?_, ?_⟩
  · intro size hprotocol hsize offset width hread
    have hmem := htouch (.read offset width) nofun hread
    have hhead := hprotocol.head static.abiVersion
    have hwhole := hprotocol.whole static.abiVersion
    rw [loadOffset] at hwhole
    rcases hcases with ⟨-, -, -, -, -, htouched | ⟨haccepts, htouched⟩⟩ | ⟨hvalid, htouched, -⟩
    · rw [htouched] at hmem
      simp only [List.mem_singleton, Touch.read.injEq] at hmem
      omega
    · have hfull := hwhole haccepts
      rw [htouched] at hmem
      simp only [List.mem_cons, List.not_mem_nil, or_false, Touch.read.injEq] at hmem
      omega
    · have hfull := hwhole ((validate_ok_iff _ _).mp hvalid).1
      rw [htouched] at hmem
      simp only [List.mem_cons, List.not_mem_nil, or_false, Touch.read.injEq, reduceCtorEq] at hmem
      omega
  · intro address hcall
    obtain ⟨image', static', hopened, hdeclaration', hload, hvalid⟩ := openLibrary_call hcall
    cases hopened
    rw [hdeclaration, Except.ok.injEq] at hdeclaration'
    subst hdeclaration'
    exact ⟨hload, hvalid⟩
  · intro e he
    refine ⟨touched, ?_, hnot⟩
    rw [hran] at he ⊢
    split at he <;> rename_i hload
    · rfl
    · cases he
  · intro lints hlints
    rw [hran] at hlints ⊢
    split at hlints <;> rename_i hload
    · cases hlints
    · exact hnot
  · intro lints
    have hload : ran.2 = .ok lints ↔ loadLibrary ⟨path, exports⟩ = .ok lints := by
      rw [hran]
      cases loadLibrary ⟨path, exports⟩ <;> simp
    rw [hload, loadLibrary_ok_iff]
    rcases hcases with ⟨mismatch, e, hvalid, hexports, -⟩ | ⟨hvalid, -, hexports⟩
    · simp [hvalid, hexports]
    · rw [hexports]
      cases image.call static.load <;> simp [hvalid, Except.mapError]

/-- A static that ends behind its version, in a memory of other things. -/
def truncatedStatic : Static where
  memory i := [3, 0, 0, 0, 4, 0, 0, 0].getD i 0xff
  size := 8

def truncatedImage : Image noTypes where
  declaration := .ok truncatedStatic
  call _ := .ok []

/-- Of a plugin of ABI 3.4 whose static holds nothing else, a host of 0.7 reads the version. -/
theorem openLibrary_safe_truncated :
    let ran := openLibrary ⟨⟨0, 7⟩, 0xaa, 0xbb⟩ ⟨"liblints.so"⟩ (.ok truncatedImage)
    ran.1 = [.read 0 8, .unload] ∧
      ∀ offset width, Touch.read offset width ∈ ran.1 → offset + width ≤ 8 := by
  refine ⟨by decide, (openLibrary_safe ⟨⟨0, 7⟩, 0xaa, 0xbb⟩ ⟨"liblints.so"⟩ truncatedImage
    truncatedStatic rfl).1 (fun version => if version.major = 0 then 32 else 8) ⟨?_, ?_⟩ (by decide)⟩
  · intro version
    show 8 ≤ if version.major = 0 then 32 else 8
    split <;> omega
  · intro version haccepts
    have hfloor := ((AbiVersion.accepts_iff _ _).mp haccepts).1
    have hmajor : version.major = 0 := by
      rw [← AbiVersion.floor_major version, ← hfloor]
      rfl
    rw [loadOffset, if_pos hmajor]

/-! ## A declaration that `export_lints!` wrote -/

theorem Static.bytes_add (static : Static) (offset width width' : Nat) :
    static.bytes offset (width + width') =
      static.bytes offset width ++ static.bytes (offset + width) width' := by
  unfold Static.bytes
  rw [List.range_add, List.map_append, List.map_map]
  congr 1
  refine List.map_congr_left fun i _ => ?_
  show static.memory (offset + (width + i)) = _
  rw [Nat.add_assoc]

/-- A field that stands at an offset is read back, if its type is as wide as it is stored. -/
theorem word_of_field {static : Static} {offset width value : Nat} {rest : List UInt8}
    (hvalue : value < 256 ^ width)
    (h : static.bytes offset (Framing.bytesLE width value ++ rest).length =
      Framing.bytesLE width value ++ rest) :
    static.word offset width = value ∧ static.bytes (offset + width) rest.length = rest := by
  have hfield : (static.bytes offset width).length = (Framing.bytesLE width value).length := by
    rw [Framing.length_bytesLE, Static.bytes, List.length_map, List.length_range]
  rw [List.length_append, Framing.length_bytesLE, Static.bytes_add] at h
  obtain ⟨hvalueBytes, hrest⟩ := List.append_inj h hfield
  refine ⟨?_, hrest⟩
  rw [Static.word, hvalueBytes, Framing.ofBytesLE_bytesLE hvalue]

/-- Every field of a declaration is read back as it was written. -/
theorem identity_of_holds {static : Static} {identity : AbiIdentity} {load : UInt64}
    (h : static.Holds (declarationBytes identity load)) :
    static.identity = identity ∧ static.load = load := by
  obtain ⟨hmajor, hrest⟩ := word_of_field identity.abiVersion.major.toNat_lt h.2
  obtain ⟨hminor, hrest⟩ := word_of_field identity.abiVersion.minor.toNat_lt hrest
  obtain ⟨htypes, hrest⟩ := word_of_field identity.typesFingerprint.toNat_lt hrest
  obtain ⟨hlanguage, hrest⟩ := word_of_field identity.languageFingerprint.toNat_lt hrest
  rw [← List.append_nil (Framing.bytesLE 8 load.toNat)] at hrest
  obtain ⟨hload, -⟩ := word_of_field load.toNat_lt hrest
  have hversion : static.abiVersion = identity.abiVersion := by
    show AbiVersion.mk _ _ = _
    rw [hmajor, hminor, UInt32.ofNat_toNat, UInt32.ofNat_toNat]
  refine ⟨?_, ?_⟩
  · show AbiIdentity.mk static.abiVersion _ _ = _
    rw [hversion, typesFingerprintOffset, languageFingerprintOffset, htypes, hlanguage,
      UInt64.ofNat_toNat, UInt64.ofNat_toNat]
  · show UInt64.ofNat (static.word loadOffset 8) = load
    rw [loadOffset, hload, UInt64.ofNat_toNat]

/-- The plugin loads into exactly the hosts that have its key and are not older, if each of its
    lints declares a rule. It hands over one lint for each that `export_lints!` names, in order. A
    host that does not fit learns why, and calls nothing of the plugin. -/
theorem exported_plugin_loads (host built : AbiIdentity) (dispatches : Dispatches)
    (plugin : PluginCrate D) (image : Image D) (static : Static) (load : UInt64)
    (hdeclaration : image.declaration = .ok static)
    (hstatic : static.Holds (declarationBytes built load))
    (hcall : image.call load = stilesLoad dispatches plugin.groups) :
    let ran := openLibrary host plugin.library (.ok image)
    ((∃ lints, ran.2 = .ok lints) ↔
      (host.key = built.key ∧ built.abiVersion ≤ host.abiVersion) ∧
      ∀ entry ∈ plugin.entries, ∃ rules, entry.lint.declared = .ok rules ∧ rules ≠ []) ∧
    (∀ lints, ran.2 = .ok lints → List.Forall₂ (LoadedFrom dispatches) plugin.entries lints) ∧
    ∀ mismatch, validate host built = .error mismatch →
      (∃ e, ran.2 = .error e ∧ mismatch.display ∈ e.message :: e.causes) ∧
      ∀ address, Touch.call address ∉ ran.1 := by
  intro ran
  obtain ⟨hidentity, hload⟩ := identity_of_holds hstatic
  have hresult : ran.2 = _ := openLibrary_result host plugin.library hdeclaration
  have htouch : ∀ touch, touch ≠ .unload → touch ∈ ran.1 →
      touch ∈ (readDeclaration host image static).1 :=
    fun touch => openLibrary_touched host plugin.library hdeclaration
  have hcases := readDeclaration_cases host image static
  generalize readDeclaration host image static = read at hresult htouch hcases
  obtain ⟨touched, exports⟩ := read
  dsimp only at hresult htouch hcases
  rw [hidentity, hload, hcall] at hcases
  rw [← validate_iff_key]
  rcases hcases with ⟨mismatch, e, hvalid, rfl, hdisplay, htouched⟩ | ⟨hvalid, -, rfl⟩
  · have herror : ran.2 = .error e := hresult
    have hnone : ∀ lints, ran.2 ≠ .ok lints := by
      intro lints h
      rw [herror] at h
      cases h
    refine ⟨⟨fun ⟨lints, h⟩ => absurd h (hnone lints), fun h => ?_⟩,
      fun lints h => absurd h (hnone lints), fun mismatch' hmismatch => ⟨?_, ?_⟩⟩
    · rw [hvalid] at h
      cases h.1
    · rw [hvalid, Except.error.injEq] at hmismatch
      rw [← hmismatch]
      exact ⟨e, herror, hdisplay⟩
    · intro address haddress
      have hmem := htouch (.call address) nofun haddress
      rcases htouched with htouched | ⟨-, htouched⟩ <;> simp [htouched] at hmem
  · have hopened : ran.2 = loadLibrary (plugin.opened dispatches) := hresult
    rw [hopened, loadLibrary_opened_iff, hvalid]
    refine ⟨⟨fun h => ⟨rfl, h⟩, fun h => h.2⟩, fun lints => loadLibrary_opened, ?_⟩
    intro mismatch hmismatch
    cases hmismatch

/-- The static that `export_lints!` wrote for a plugin of ABI 0.7. -/
def literalStatic : Static where
  memory i := (declarationBytes ⟨⟨0, 7⟩, 0xaa, 0xbb⟩ 0x1000).getD i 0
  size := 32

def literalImage : Image noteTypes where
  declaration := .ok literalStatic
  call _ := stilesLoad (fun _ => []) literalPlugin.groups

/-- A host of its own key loads the plugin, and a host of 0.8 tells that it does not fit. -/
theorem literalPlugin_loads :
    (∃ lints, (openLibrary ⟨⟨0, 7⟩, 0xaa, 0xbb⟩ literalPlugin.library (.ok literalImage)).2 =
      .ok lints ∧ lints.length = 1) ∧
    ∀ address, Touch.call address ∉
      (openLibrary ⟨⟨0, 8⟩, 0xaa, 0xbb⟩ literalPlugin.library (.ok literalImage)).1 := by
  have hstatic : literalStatic.Holds (declarationBytes ⟨⟨0, 7⟩, 0xaa, 0xbb⟩ 0x1000) := by
    unfold Static.Holds
    decide
  have hloads := fun host => exported_plugin_loads host ⟨⟨0, 7⟩, 0xaa, 0xbb⟩ (fun _ => [])
    literalPlugin literalImage literalStatic 0x1000 rfl hstatic rfl
  constructor
  · obtain ⟨lints, hlints⟩ := (hloads ⟨⟨0, 7⟩, 0xaa, 0xbb⟩).1.mpr ⟨by decide, by
      intro entry hentry
      rw [List.mem_singleton.mp hentry]
      exact ⟨_, rfl, List.cons_ne_nil _ _⟩⟩
    exact ⟨lints, hlints, ((hloads _).2.1 lints hlints).length_eq.symm⟩
  · exact ((hloads ⟨⟨0, 8⟩, 0xaa, 0xbb⟩).2.2 (.AbiVersion ⟨0, 7⟩ ⟨0, 8⟩) (by decide)).2

end Stiles
