import Stiles.CustomLints.Resolve

/-
  What the parts of `resolve_git` do, wherever they are cut off.

  `unpacked` is what `unpack` makes of an empty directory, without its steps, and
  `unpacked_eq_ok` what it then holds. `install_spec`, `fetch_spec` and `checkout_spec` say where a
  part can leave files and what it returns. None of this depends on what an earlier run left in the
  staging directory.
-/

namespace Stiles

namespace Resolve

open Crash (Prog Triple)
open Fs (Around Implements)
open Releases

/-! ## The contents of an archive -/

section

variable (tools : Tools) (world : World)

/-- The effect of `download` on the directory. -/
def downloaded (asset : ReleaseAsset) (staging : FilePath) : DirEffect Sha256Digest := do
  let body ← DirEffect.query fun _ => (api tools world).body tools.http world.network asset
  let written := body.extract 0 (MAX_ARCHIVE + 1)
  let path := (staging.join ⟨DOWNLOAD⟩).text
  DirEffect.context ("failed to write " ++ path) (DirEffect.writeFile DOWNLOAD (.ok written))
  DirEffect.ensure (written.size ≤ MAX_ARCHIVE) (.msg (asset.name ++ " is larger than the " ++
    MAX_ARCHIVE.repr ++ " bytes stiles will download"))
  let contents ← DirEffect.context ("failed to open " ++ path)
    (DirEffect.query fun entries => fileIn entries DOWNLOAD)
  DirEffect.query fun _ => .ok (tools.codecs.sha256 contents)

/-- The effect of `unpack` on the directory. -/
def unpacked (asset : PrebuiltAsset) (staging : FilePath) : DirEffect Unit := do
  let published ← DirEffect.query fun _ => withContext "failed to download the digest of the archive"
    ((api tools world).downloadText tools.http world.network asset.sidecar)
  let published ← DirEffect.query fun _ => withContext "failed to read the digest of the archive"
    (Sha256Digest.fromSidecar tools.codecs.decodeHex published)
  let arrived ← DirEffect.context "failed to download the archive"
    (downloaded tools world asset.archive staging)
  DirEffect.ensure (arrived = published) (.msg ("the archive has digest " ++ arrived.display ++
    ", but the sidecar beside it publishes " ++ published.display))
  DirEffect.context "failed to unpack the archive"
    (DirEffect.extract tools.codecs staging DOWNLOAD)
  DirEffect.context ("failed to remove " ++ (staging.join ⟨DOWNLOAD⟩).text)
    (DirEffect.removeFile DOWNLOAD)
  let held ← DirEffect.query fun entries =>
    .ok (Prebuilt.holdsLibraries tools.dllExtension entries)
  DirEffect.ensure held (.msg "the archive holds no dynamic library at its root")

/-- A verified archive: the network serves it, and beside it a sidecar that publishes its digest. -/
def Verified (asset : PrebuiltAsset) (archive : List TarEntry) : Prop :=
  ∃ (body : ByteArray) (sidecar : String),
    (api tools world).body tools.http world.network asset.archive = .ok body ∧
      (api tools world).downloadText tools.http world.network asset.sidecar = .ok sidecar ∧
      Sha256Digest.fromSidecar tools.codecs.decodeHex sidecar
        = .ok (tools.codecs.sha256 (fileContents body)) ∧
      tools.codecs.untar (fileContents body) = .ok (archive.map .ok)

end

variable {tools : Tools} {world : World} {files base : Files} {staging destination : FilePath}

theorem download_implements {owner : Option Nat} (asset : ReleaseAsset) :
    Implements files staging owner (download tools world asset staging)
      (downloaded tools world asset staging) :=
  .emit_bind (.bind (.lift _) fun _ => .bind (.context (.writeFile _ _ _)) fun _ =>
    .bind (.ensure _ _) fun _ => .bind (.context (.readFile _)) fun _ => .lift _)

theorem unpack_implements (tools : Tools) (world : World) (files : Files) (staging : FilePath)
    (owner : Option Nat) (asset : PrebuiltAsset) :
    Implements files staging owner (unpack tools world asset staging)
      (unpacked tools world asset staging) := by
  refine .emit_bind (.bind (.lift _) fun published => .bind (.lift _) fun published => ?_)
  refine .bind (.context (download_implements asset.archive)) fun arrived => ?_
  refine .bind (.ensure _ _) fun _ => .bind (.context (.extract _ _ _)) fun _ => ?_
  refine .bind (.context (.removeFile _)) fun _ => .bind (.read fun entries => ?_) fun _ =>
    .ensure _ _
  rw [Files.set_same]
  rfl

/-- A download leaves the archive as it was served. -/
theorem downloaded_eq_ok {asset : ReleaseAsset} {digest : Sha256Digest}
    {entries entries' : List DirEntry}
    (h : downloaded tools world asset staging entries = .ok (digest, entries')) :
    ∃ body, (api tools world).body tools.http world.network asset = .ok body ∧
      entries' = putEntry entries ⟨DOWNLOAD, true, fileContents body⟩ ∧
      fileIn entries' DOWNLOAD = .ok (fileContents body) ∧
      digest = tools.codecs.sha256 (fileContents body) := by
  obtain ⟨body, hbody, hrest₁⟩ := DirEffect.query_bind_eq_ok.mp h
  obtain ⟨_, written, hwrite, hrest₂⟩ := DirEffect.bind_eq_ok.mp hrest₁
  obtain ⟨bytes, hbytes, rfl⟩ := DirEffect.writeFile_eq_ok.mp (DirEffect.context_eq_ok.mp hwrite)
  obtain ⟨hsize, hrest₃⟩ := DirEffect.ensure_bind_eq_ok.mp hrest₂
  obtain ⟨contents, between, hread, hrest₄⟩ := DirEffect.bind_eq_ok.mp hrest₃
  obtain ⟨hcontents, hbetween⟩ := DirEffect.query_eq_ok.mp (DirEffect.context_eq_ok.mp hread)
  obtain ⟨hdigest, hentries⟩ := DirEffect.query_eq_ok.mp hrest₄
  rw [hentries, hbetween]
  have hwhole : bytes = body := by
    have hbound : max (MAX_ARCHIVE + 1) body.size = MAX_ARCHIVE + 1 := by
      have hcut := of_decide_eq_true hsize
      rw [ByteArray.size_extract] at hcut
      omega
    rw [← Except.ok.inj hbytes, ← hbound]
    exact ByteArray.extract_zero_max_size
  have hfile : fileIn (putEntry entries ⟨DOWNLOAD, true, fileContents bytes⟩) DOWNLOAD
      = .ok (fileContents bytes) :=
    fileIn_putEntry_same entries ⟨DOWNLOAD, true, fileContents bytes⟩
  rw [hfile, Except.ok.injEq] at hcontents
  rw [hwhole] at hfile hcontents ⊢
  refine ⟨body, hbody, rfl, hfile, ?_⟩
  rw [hcontents, Except.ok.inj hdigest]

/-- What `unpack` leaves of an empty directory: the files at the root of a verified archive, without
    the one that has the name of the archive itself. -/
theorem unpacked_entries {asset : PrebuiltAsset} {entries : List DirEntry}
    (h : unpacked tools world asset staging [] = .ok ((), entries)) :
    Prebuilt.holdsLibraries tools.dllExtension entries = true ∧
      ∃ (archive : List TarEntry) (body : String), Verified tools world asset archive ∧
        (∀ entry ∈ archive, Readable entry) ∧
        entries = ((archive.filterMap rootFile).foldl putEntry [⟨DOWNLOAD, true, body⟩]).filter
          fun file => file.name ≠ DOWNLOAD := by
  obtain ⟨sidecar, hsidecar, hrest₁⟩ := DirEffect.query_bind_eq_ok.mp h
  obtain ⟨published, hpublished, hrest₂⟩ := DirEffect.query_bind_eq_ok.mp hrest₁
  obtain ⟨arrived, withArchive, hdownload, hrest₃⟩ := DirEffect.bind_eq_ok.mp hrest₂
  obtain ⟨body, hbody, hwritten, hfile, hdigest⟩ :=
    downloaded_eq_ok (DirEffect.context_eq_ok.mp hdownload)
  obtain ⟨hsame, hrest₄⟩ := DirEffect.ensure_bind_eq_ok.mp hrest₃
  obtain ⟨_, extracted, hextract, hrest₅⟩ := DirEffect.bind_eq_ok.mp hrest₄
  obtain ⟨contents, archive, hcontents, huntar, hreadable, hextracted⟩ :=
    extract_eq_ok (DirEffect.context_eq_ok.mp hextract)
  obtain ⟨_, kept, hremove, hrest₆⟩ := DirEffect.bind_eq_ok.mp hrest₅
  have hkept := DirEffect.removeFile_eq_ok (DirEffect.context_eq_ok.mp hremove)
  obtain ⟨held, hheld, hensure⟩ := DirEffect.query_bind_eq_ok.mp hrest₆
  obtain ⟨htrue, hentries⟩ := DirEffect.ensure_eq_ok.mp hensure
  rw [hfile, Except.ok.injEq] at hcontents
  rw [← hcontents] at huntar
  rw [hentries]
  refine ⟨(Except.ok.inj hheld).trans htrue, archive, fileContents body, ⟨body, sidecar, hbody,
    withContext_eq_ok.mp hsidecar, ?_, huntar⟩, hreadable, ?_⟩
  · rw [withContext_eq_ok.mp hpublished, ← of_decide_eq_true hsame, hdigest]
  · rw [hkept, hextracted, hwritten]
    rfl

/-- What `unpack` leaves of an empty directory holds every library of a verified archive. -/
theorem unpacked_eq_ok {asset : PrebuiltAsset} {entries : List DirEntry}
    (h : unpacked tools world asset staging [] = .ok ((), entries)) :
    Prebuilt.holdsLibraries tools.dllExtension entries = true ∧
      ∃ archive, Verified tools world asset archive ∧
        Prebuilt.Whole tools.dllExtension (rootFiles archive) entries := by
  obtain ⟨hholds, archive, body, hverified, _, hentries⟩ := unpacked_entries h
  refine ⟨hholds, archive, hverified, ?_⟩
  intro library hlibrary
  obtain ⟨hmem, hextension, hisFile⟩ := Prebuilt.mem_libraries.mp hlibrary
  -- A library is not the archive, because of its extension.
  have hname : library.name ≠ DOWNLOAD := by
    intro hname
    have hgz : FilePath.extension ⟨DOWNLOAD⟩ = some "gz" := by decide
    rw [hname, hgz, Option.some.injEq] at hextension
    exact tools.dllExtension_ne hextension.symm
  rw [hentries]
  exact Prebuilt.mem_libraries.mpr ⟨rootFiles_subset body hname hmem, hextension, hisFile⟩

/-! ## Installing -/

/-- The files after the directory in `staging`, which holds `entries`, is moved into place. -/
def placed (files : Files) (staging destination : FilePath) (pid : Nat)
    (entries : List DirEntry) : Files :=
  (files.set staging none).set destination (some ⟨some pid, entries⟩)

/-- Where an installation can be cut off: while it discards what is in the way, at work in the
    staging directory, or done. `base` is `files` without what was in the way. -/
def Cut (files base : Files) (staging destination : FilePath) (pid : Nat)
    (result : Option (List DirEntry)) (t : Files) : Prop :=
  (files destination ≠ none ∧ Around files destination t) ∨ Around base staging t ∨
    ∃ entries, result = some entries ∧ t = placed base staging destination pid entries

/-- How an installation ends: what it assembled is in place, or nothing is there but what was. -/
def Ends (files base : Files) (staging destination : FilePath) (pid : Nat)
    (result : Option (List DirEntry)) (done failed : Prop) (t : Files) : Prop :=
  match result with
  | some entries => done ∧ t = placed base staging destination pid entries
  | none => failed ∧ (t = files ∨ Around base staging t)

/-- The move of an assembled directory to a free destination. -/
theorem rename_placed {pid : Nat} {entries : List DirEntry} {result : Option (List DirEntry)}
    (hfree : base destination = none) (hne : destination ≠ staging)
    (hresult : result = some entries) :
    Triple (fun t => t = base.set staging (some ⟨some pid, entries⟩))
      (Fs.rename staging destination : Fs Event Unit)
      (fun r t => r = .ok () ∧ t = placed base staging destination pid entries)
      (Cut files base staging destination pid result) := by
  have hend : ((base.set staging (some ⟨some pid, entries⟩)).set staging none).set destination
      (some ⟨some pid, entries⟩) = placed base staging destination pid entries := by
    rw [Files.set_set]
    rfl
  rw [← hend]
  refine Fs.rename_spec _ staging destination ⟨some pid, entries⟩ (Files.set_same ..) ?_ ?_
  · rw [Files.set_other _ _ hne, hfree]
  · exact Or.inr (Or.inr ⟨entries, hresult, hend⟩)

/-- What is in the way goes first, and then what an earlier run left in the staging directory. -/
theorem clear_spec {β : Type} (disk : Disk) (files : Files) (staging : FilePath)
    (hbase : base = files.set destination none)
    (hparent : destination.parent.isSome = true) (e : Anyhow) (message message' : String)
    {p : Fs Event β} {Q : Except Anyhow β → Files → Prop} {C : Files → Prop}
    (hC : ∀ t, files destination ≠ none ∧ Around files destination t → C t)
    (hC' : ∀ t, Around base staging t → C t)
    (hp : Triple (fun t => t = base.set staging none) p Q C) :
    Triple (fun t => t = files) (do
      Fs.discard disk destination message
      Fs.discard disk staging message'
      createParent destination e
      p) Q C := by
  have hdestination : Triple (fun t => t = files)
      (Fs.discard disk destination message : Fs Event Unit) (fun r t => r = .ok () ∧ t = base) C := by
    rw [hbase]
    by_cases hfree : files destination = none
    · have hself : files.set destination none = files := by
        rw [← hfree, Files.set_self]
      rw [hself]
      exact (Fs.discard_absent disk destination message).mono_pre fun t ht => ⟨ht, hfree⟩
    · exact (Fs.discard_spec disk files destination message).mono
        (fun t ht => ht ▸ Fs.around_self files destination) (fun _ _ h => h)
        fun t ht => hC t ⟨hfree, ht⟩
  have hstaging : Triple (fun t => t = base) (Fs.discard disk staging message' : Fs Event Unit)
      (fun r t => r = .ok () ∧ t = base.set staging none) C :=
    (Fs.discard_spec disk base staging message').mono
      (fun t ht => ht ▸ Fs.around_self base staging) (fun _ _ h => h) hC'
  refine Triple.bind_ok hdestination (Triple.bind_ok hstaging (Triple.ensure_bind ?_ ?_))
  · intro _
    exact hp
  · intro hnone
    rw [hparent] at hnone
    cases hnone

section

variable (tools) (world)

/-- What an installation assembles, which does not depend on the files. -/
def installedEntries (repository : GitHubRepository) (name : AssetName) (staging : FilePath) :
    Option (List DirEntry) :=
  match (api tools world).findAsset tools.http world.network repository name with
  | .ok (.Found asset) =>
    match unpacked tools world asset staging [] with
    | .ok (_, entries) => some entries
    | .error _ => none
  | _ => none

end

/-- From a fresh staging directory on: the archive is unpacked and moved, or discarded. -/
theorem installAsset_spec {name : AssetName} {asset : PrebuiltAsset} {result : Option (List DirEntry)}
    (hfree : base destination = none) (hne : destination ≠ staging)
    (hresult : result = match unpacked tools world asset staging [] with
      | .ok (_, entries) => some entries
      | .error _ => none) :
    Triple (fun t => t = base.set staging (some ⟨some world.disk.pid, []⟩))
      (installAsset tools world name asset staging destination)
      (fun r t => Ends files base staging destination world.disk.pid result (r = .ok .Yes)
        (r ≠ .ok .Yes) t)
      (Cut files base staging destination world.disk.pid result) := by
  have hcut : ∀ t, Around base staging t →
      Cut files base staging destination world.disk.pid result t := fun t ht => Or.inr (Or.inl ht)
  have hunpack := (unpack_implements tools world base staging (some world.disk.pid) asset
    []).mono_cut fun t ht => hcut t ht.around
  cases hunpacked : unpacked tools world asset staging [] with
  | error e =>
    rw [hunpacked] at hunpack hresult
    refine Triple.capture_bind_eq (hunpack.mono_post fun r t h => ⟨h.1, h.2.1⟩) ?_
    have hremove := (Fs.removeDirAll_within (ε := Event) world.disk base staging
      (some world.disk.pid)).mono_cut hcut
    refine Triple.capture_bind_eq hremove (Triple.lift fun t ht => ?_)
    rw [ht, hresult]
    exact ⟨nofun, Or.inr (Fs.around_set base staging none)⟩
  | ok v =>
    obtain ⟨_, entries⟩ := v
    rw [hunpacked] at hunpack hresult
    refine Triple.capture_bind_eq (hunpack.mono_post fun r t h => ⟨h.1, h.2.2 _ _ rfl⟩) ?_
    refine Triple.capture_bind_eq (rename_placed hfree hne hresult) (Triple.pure fun t ht => ?_)
    rw [hresult]
    exact ⟨rfl, ht⟩

/-- `install`, whatever is at the destination and in the staging directory. -/
theorem install_spec (files : Files) (destination : FilePath)
    (hbase : base = files.set destination none)
    (hparent : destination.parent.isSome = true) (repository : GitHubRepository)
    (name : AssetName) {staging : FilePath} {result : Option (List DirEntry)}
    (hstaging : staging = stagingDirectory destination world.disk.pid)
    (hresult : result = installedEntries tools world repository name staging) :
    Triple (fun t => t = files) (install tools world repository name destination)
      (fun r t => Ends files base staging destination world.disk.pid result (r = .ok .Yes)
        (r ≠ .ok .Yes) t)
      (Cut files base staging destination world.disk.pid result) := by
  have hne : destination ≠ staging := hstaging ▸ (stagingDirectory_ne destination _).symm
  have hfree : base destination = none := by
    rw [hbase, Files.set_same]
  have hnothing : ∀ r : Except Anyhow Installed, r ≠ .ok .Yes → result = none → ∀ t, t = files →
      Ends files base staging destination world.disk.pid result (r = .ok .Yes)
        (r ≠ .ok .Yes) t := by
    intro r hr hnone t ht
    rw [hnone]
    exact ⟨hr, Or.inl ht⟩
  rw [installedEntries] at hresult
  refine Triple.emit_bind (Triple.lift_bind ?_ ?_)
  · intro answer hanswer
    rw [withContext_eq_ok.mp hanswer] at hresult
    cases answer with
    | NoMatch => exact Triple.pure (hnothing _ nofun hresult)
    | Unlisted => exact Triple.pure (hnothing _ nofun hresult)
    | Found asset =>
      rw [← hstaging]
      refine clear_spec world.disk files staging hbase hparent _ _ _ (fun t ht => Or.inl ht)
        (fun t ht => Or.inr (Or.inl ht)) ?_
      refine Triple.bind_ok ((Fs.context_ok (Fs.createDirAll_spec world.disk base staging)).mono_cut
        fun t ht => Or.inr (Or.inl ht)) ?_
      exact installAsset_spec hfree hne hresult
  · intro e he
    refine hnothing _ nofun ?_
    rw [hresult]
    cases hanswer : (api tools world).findAsset tools.http world.network repository name with
    | error e' => rfl
    | ok answer =>
      rw [hanswer] at he
      cases he

section

variable (tools) (world)

/-- What `fetch` installs at `directory`, if anything. -/
def fetchedEntries (source : GitLintSource) (tag : AbiTag) (directory : FilePath) :
    Option (List DirEntry) :=
  (GitHubRepository.fromUrl source.url (configuredRepositoryHost tools.http world.env)).bind
    fun repository => installedEntries tools world repository (AssetName.new source.rev tag)
      (stagingDirectory directory world.disk.pid)

/-- A release has this verified archive for the pin and the tag. -/
def Published (source : GitLintSource) (tag : AbiTag) (archive : List TarEntry) : Prop :=
  ∃ repository asset,
    GitHubRepository.fromUrl source.url (configuredRepositoryHost tools.http world.env)
      = some repository ∧
    (api tools world).findAsset tools.http world.network repository (AssetName.new source.rev tag)
      = .ok (.Found asset) ∧
    Verified tools world asset archive

end

/-- What is installed holds every library of the archive that was found. -/
theorem installedEntries_eq_some {repository : GitHubRepository} {name : AssetName}
    {staging : FilePath} {entries : List DirEntry}
    (h : installedEntries tools world repository name staging = some entries) :
    Prebuilt.holdsLibraries tools.dllExtension entries = true ∧ ∃ asset archive,
      (api tools world).findAsset tools.http world.network repository name = .ok (.Found asset) ∧
      Verified tools world asset archive ∧
      Prebuilt.Whole tools.dllExtension (rootFiles archive) entries := by
  rw [installedEntries] at h
  split at h
  · rename_i asset hasset
    split at h
    · rename_i hunpacked
      rw [← Option.some.inj h]
      obtain ⟨hlibraries, archive, hverified, hwhole⟩ := unpacked_eq_ok hunpacked
      exact ⟨hlibraries, asset, archive, hasset, hverified, hwhole⟩
    · cases h
  · cases h

theorem fetchedEntries_eq_some {source : GitLintSource} {tag : AbiTag} {directory : FilePath}
    {entries : List DirEntry} (h : fetchedEntries tools world source tag directory = some entries) :
    Prebuilt.holdsLibraries tools.dllExtension entries = true ∧
      ∃ archive, Published tools world source tag archive ∧
        Prebuilt.Whole tools.dllExtension (rootFiles archive) entries := by
  obtain ⟨repository, hrepository, hinstalled⟩ := Option.bind_eq_some_iff.mp h
  obtain ⟨hlibraries, asset, archive, hasset, hverified, hwhole⟩ :=
    installedEntries_eq_some hinstalled
  exact ⟨hlibraries, archive, ⟨repository, asset, hrepository, hasset, hverified⟩, hwhole⟩

theorem fetch_spec (files : Files) (source : GitLintSource) (tag : AbiTag) (directory : FilePath)
    (hbase : base = files.set directory none) (hparent : directory.parent.isSome = true)
    {staging : FilePath} {result : Option (List DirEntry)}
    (hstaging : staging = stagingDirectory directory world.disk.pid)
    (hresult : result = fetchedEntries tools world source tag directory) :
    Triple (fun t => t = files) (fetch tools world source tag directory)
      (fun r t => Ends files base staging directory world.disk.pid result (r = .ok (some directory))
        (r = .ok none) t)
      (Cut files base staging directory world.disk.pid result) := by
  rw [fetchedEntries] at hresult
  rw [fetch]
  cases hrepository : GitHubRepository.fromUrl source.url
      (configuredRepositoryHost tools.http world.env) with
  | none =>
    rw [hrepository, Option.bind_none] at hresult
    refine Triple.pure fun t ht => ?_
    rw [hresult]
    exact ⟨rfl, Or.inl ht⟩
  | some repository =>
    rw [hrepository, Option.bind_some, ← hstaging] at hresult
    refine Triple.capture_bind (install_spec files directory hbase hparent repository
      (AssetName.new source.rev tag) hstaging hresult) fun installed => ?_
    -- Whatever was not installed is compiled, with a notice or without one.
    have hnothing : ∀ t, installed ≠ .ok .Yes →
        Ends files base staging directory world.disk.pid result (installed = .ok .Yes)
          (installed ≠ .ok .Yes) t →
        Ends files base staging directory world.disk.pid result
          ((.ok none : Except Anyhow (Option FilePath)) = .ok (some directory))
          ((.ok none : Except Anyhow (Option FilePath)) = .ok none) t := by
      intro t hne hends
      cases result with
      | none => exact ⟨rfl, hends.2⟩
      | some entries => exact absurd hends.1 hne
    cases installed with
    | error e => exact Triple.emit_bind (Triple.pure fun t ht => hnothing t nofun ht)
    | ok installed =>
      cases installed with
      | Absent => exact Triple.emit_bind (Triple.pure fun t ht => hnothing t nofun ht)
      | Unlisted => exact Triple.pure fun t ht => hnothing t nofun ht
      | Yes =>
        refine Triple.pure fun t ht => ?_
        cases result with
        | none => exact absurd rfl ht.1
        | some entries => exact ⟨rfl, ht.2⟩

/-! ## Checking out -/

/-- The effect of git on the directory, once it is there. -/
def materialized (world : World) (source : GitLintSource) (staging : FilePath) : DirEffect Unit := do
  world.git.partials.forM fun entries => DirEffect.call noSuchFile fun _ => some entries
  let prepared ← DirEffect.query fun _ => world.git.prepared
  DirEffect.call noSuchFile fun _ => some prepared
  DirEffect.context ("failed to point HEAD at " ++ source.rev.text)
    (DirEffect.context ("failed to write " ++ (staging.join ⟨GitSource.head⟩).text)
      (DirEffect.put GitSource.head (source.rev.text ++ "\n")))

/-- What git left on the way does not matter. -/
theorem materialized_eq (source : GitLintSource) (entries : List DirEntry) :
    materialized world source staging entries = world.git.prepared.map fun prepared =>
      ((), GitSource.detachHead prepared source.rev.text) := by
  rw [materialized]
  generalize world.git.partials = partials
  induction partials generalizing entries with
  | nil =>
    cases world.git.prepared with
    | error e => rfl
    | ok prepared => rfl
  | cons first rest ih => exact ih first

theorem place_implements {owner : Option Nat} (entries : List DirEntry) :
    Implements files staging owner (place staging entries)
      (DirEffect.call noSuchFile fun _ => some entries) := by
  refine .call fun before => ?_
  rw [Files.set_same]
  exact congrArg some (Files.set_set ..)

theorem materialize_spec (world : World) (files : Files) (source : GitLintSource)
    (staging : FilePath) :
    Triple (fun t => t = files.set staging none) (materialize world source staging)
      (fun r t => r = world.git.prepared.map (fun _ => ()) ∧ Around files staging t ∧
        ∀ prepared, world.git.prepared = .ok prepared → t = files.set staging
          (some ⟨some world.disk.pid, GitSource.detachHead prepared source.rev.text⟩))
      (Around files staging) := by
  have hwork : Implements files staging (some world.disk.pid) (do
      Prog.emit (Event.fetch source)
      Prog.each (place staging) world.git.partials
      let prepared ← Prog.lift world.git.prepared
      place staging prepared
      Fs.context ("failed to point HEAD at " ++ source.rev.text)
        (Fs.context ("failed to write " ++ (staging.join ⟨GitSource.head⟩).text)
          (Fs.put staging GitSource.head (source.rev.text ++ "\n"))))
      (materialized world source staging) :=
    .emit_bind (.bind (.each place_implements _) fun _ => .bind (.lift _) fun prepared =>
      .bind (place_implements prepared) fun _ => .context (.context (.put _ _)))
  refine Triple.bind_ok (Fs.context_ok (Fs.createDirAll_spec world.disk files staging)) ?_
  refine (hwork []).mono (fun t ht => ht) ?_ fun t ht => ht.around
  intro r t h
  obtain ⟨hr, hwithin, hend⟩ := h
  rw [materialized_eq] at hr hend
  refine ⟨?_, hwithin.around, ?_⟩
  · rw [hr]
    cases world.git.prepared <;> rfl
  · intro prepared hprepared
    rw [hprepared] at hend
    exact hend _ _ rfl

/-- From a free staging directory on: the source is fetched and moved. -/
theorem checkoutInto_spec (tools : Tools) (source : GitLintSource) (hfree : base destination = none)
    (hne : destination ≠ staging) {result : Option (List DirEntry)}
    (hresult : result = world.git.prepared.toOption.map fun prepared =>
      GitSource.detachHead prepared source.rev.text) :
    Triple (fun t => t = base.set staging none)
      (checkoutInto tools world source staging destination)
      (fun r t => Ends files base staging destination world.disk.pid result (r = .ok destination)
        (∃ e, world.git.prepared = .error e ∧ r = .error (e.context ("failed to check out " ++
          source.rev.text ++ " from " ++ source.url.display tools.gix))) t)
      (Cut files base staging destination world.disk.pid result) := by
  have hcut : ∀ t, Around base staging t →
      Cut files base staging destination world.disk.pid result t := fun t ht => Or.inr (Or.inl ht)
  have hmaterialize := (materialize_spec world base source staging).mono_cut hcut
  cases hprepared : world.git.prepared with
  | error e =>
    rw [hprepared] at hmaterialize hresult
    refine Triple.bind_error (Fs.context_error (hmaterialize.mono_post fun r t h =>
      ⟨h.1, h.2.1⟩)) fun t ht => ?_
    rw [hresult]
    exact ⟨⟨e, rfl, rfl⟩, Or.inr ht⟩
  | ok prepared =>
    rw [hprepared] at hmaterialize hresult
    refine Triple.bind_ok (Fs.context_ok (hmaterialize.mono_post fun r t h =>
      ⟨h.1, h.2.2 _ rfl⟩)) ?_
    refine Triple.capture_bind_eq (rename_placed hfree hne hresult) (Triple.pure fun t ht => ?_)
    rw [hresult]
    exact ⟨rfl, ht⟩

/-- `checkout` of a source that is not there, whatever is at the destination and in the staging
    directory. -/
theorem checkout_spec (files : Files) (source : GitLintSource) (destination : FilePath)
    (hheld : holds tools source.rev (files destination) = false)
    (hbase : base = files.set destination none) (hparent : destination.parent.isSome = true)
    {staging : FilePath} {result : Option (List DirEntry)}
    (hstaging : staging = stagingDirectory destination world.disk.pid)
    (hresult : result = world.git.prepared.toOption.map fun prepared =>
      GitSource.detachHead prepared source.rev.text) :
    Triple (fun t => t = files) (checkout tools world source destination)
      (fun r t => Ends files base staging destination world.disk.pid result (r = .ok destination)
        (∃ e, world.git.prepared = .error e ∧ r = .error (e.context ("failed to check out " ++
          source.rev.text ++ " from " ++ source.url.display tools.gix))) t)
      (Cut files base staging destination world.disk.pid result) := by
  have hne : destination ≠ staging := hstaging ▸ (stagingDirectory_ne destination _).symm
  have hfree : base destination = none := by
    rw [hbase, Files.set_same]
  have hinto := clear_spec world.disk files staging hbase hparent
    (.msg "the checkout directory has no parent")
    ("failed to discard the damaged checkout at " ++ destination.text)
    ("failed to discard the abandoned checkout at " ++ staging.text)
    (fun t ht => Or.inl ht) (fun t ht => Or.inr (Or.inl ht))
    (checkoutInto_spec tools source hfree hne hresult)
  refine Triple.read_bind_eq (a := false) ?_ ?_
  · intro t ht
    rw [ht, hheld]
  · rw [← hstaging]
    exact hinto

/-- Where the commit cannot be fetched. -/
theorem checkout_fails {e : Anyhow} (files : Files) (source : GitLintSource)
    (destination : FilePath) (hheld : holds tools source.rev (files destination) = false)
    (hbase : base = files.set destination none) (hparent : destination.parent.isSome = true)
    (hprepared : world.git.prepared = .error e) :
    Triple (fun t => t = files) (checkout tools world source destination)
      (fun r t => r = .error (e.context ("failed to check out " ++ source.rev.text ++ " from " ++
          source.url.display tools.gix)) ∧
        (t = files ∨ Around base (stagingDirectory destination world.disk.pid) t))
      (Cut files base (stagingDirectory destination world.disk.pid) destination world.disk.pid
        none) := by
  have hspec : Triple (fun t => t = files) (checkout tools world source destination) _ _ :=
    checkout_spec files source destination hheld hbase hparent rfl rfl
  rw [hprepared] at hspec
  refine hspec.mono_post fun r t hends => ?_
  obtain ⟨⟨e', he, hr⟩, hleft⟩ := hends
  rw [hr, ← Except.error.inj he]
  exact ⟨rfl, hleft⟩

/-- Where it can. -/
theorem checkout_places {prepared : List DirEntry} (files : Files) (source : GitLintSource)
    (destination : FilePath) (hheld : holds tools source.rev (files destination) = false)
    (hbase : base = files.set destination none) (hparent : destination.parent.isSome = true)
    (hprepared : world.git.prepared = .ok prepared) :
    Triple (fun t => t = files) (checkout tools world source destination)
      (fun r t => r = .ok destination ∧
        t = placed base (stagingDirectory destination world.disk.pid) destination world.disk.pid
          (GitSource.detachHead prepared source.rev.text))
      (Cut files base (stagingDirectory destination world.disk.pid) destination world.disk.pid
        (some (GitSource.detachHead prepared source.rev.text))) := by
  have hspec : Triple (fun t => t = files) (checkout tools world source destination) _ _ :=
    checkout_spec files source destination hheld hbase hparent rfl rfl
  rw [hprepared] at hspec
  exact hspec

end Resolve

end Stiles
