import Stiles.CustomLints.Archive
import Stiles.CustomLints.GitSource
import Stiles.CustomLints.Layout
import Stiles.CustomLints.Prebuilt
import Stiles.CustomLints.Releases

/-
  Where a git lint source is taken from (`resolve_git`, `prebuilt.rs`, `git_source.rs`).

  A run looks for prebuilt libraries, then for a checkout, then asks the releases for an archive,
  and fetches the source in the end. It is a program over the file system (`Fs`), which logs its
  requests and notices and can be cut off after any step. A `World` is what it meets outside the
  cache: its process, the network and git.
-/

namespace Stiles

namespace Resolve

open Crash (Prog)
open Releases

/-! ## What a run works with -/

/-- The libraries that stiles uses, and the platform it was built for. -/
structure Tools where
  gix : Gix
  /-- Opens a directory as a repository and reads the commit its `HEAD` resolves to. -/
  headId : List DirEntry → Option String
  http : Http
  codecs : Codecs
  dllExtension : String
  /-- The extension of an archive is not that of a library. -/
  dllExtension_ne : dllExtension ≠ "gz"

/-- A fetch of the pinned commit: what the directory holds on the way, and once the working tree and
    the index are written. -/
structure Fetched where
  partials : List (List DirEntry)
  prepared : AnyhowResult (List DirEntry)

structure World where
  disk : Disk
  env : Environment
  network : Network
  git : Fetched

inductive PrebuiltNotice where
  | Unpublished (lints : GitLintSource) (name : AssetName)
  | Unusable (lints : GitLintSource) (error : Anyhow)

/-- What a run does towards the outside: a request to the API, a fetch by git, or a notice. -/
inductive Event where
  | request (request : Request)
  | fetch (lints : GitLintSource)
  | notice (notice : PrebuiltNotice)

inductive Locking where
  | Locked
  | Unlocked
deriving DecidableEq, Repr

inductive Contents where
  | Sources (locking : Locking)
  | Libraries
deriving DecidableEq, Repr

inductive Installed where
  | Yes
  | Absent
  | Unlisted
deriving DecidableEq, Repr

section

variable (tools : Tools) (world : World)

def api : GitHubApi := GitHubApi.fromEnvironment tools.http world.env

/-! ## Prebuilt libraries -/

def holdsLibraries (directory : Option Directory) : Bool :=
  directory.any fun directory => Prebuilt.holdsLibraries tools.dllExtension directory.entries

/-- Downloads an archive into a directory, and returns the digest of what arrived. -/
def download (asset : ReleaseAsset) (staging : FilePath) : Fs Event Sha256Digest := do
  Prog.emit (.request ((api tools world).request tools.http asset.url .OctetStream))
  let body ← Prog.lift ((api tools world).body tools.http world.network asset)
  let written := body.extract 0 (MAX_ARCHIVE + 1)
  let path := (staging.join ⟨DOWNLOAD⟩).text
  Fs.context ("failed to write " ++ path) (Fs.writeFile world.disk staging DOWNLOAD (.ok written))
  Prog.ensure (written.size ≤ MAX_ARCHIVE) (.msg (asset.name ++ " is larger than the " ++
    MAX_ARCHIVE.repr ++ " bytes stiles will download"))
  let contents ← Fs.context ("failed to open " ++ path) (Fs.readFile staging DOWNLOAD)
  return tools.codecs.sha256 contents

/-- Downloads the archive into the directory and unpacks what it holds. -/
def unpack (asset : PrebuiltAsset) (staging : FilePath) : Fs Event Unit := do
  Prog.emit (.request ((api tools world).request tools.http asset.sidecar.url .OctetStream))
  let published ← Prog.lift (withContext "failed to download the digest of the archive"
    ((api tools world).downloadText tools.http world.network asset.sidecar))
  let published ← Prog.lift (withContext "failed to read the digest of the archive"
    (Sha256Digest.fromSidecar tools.codecs.decodeHex published))
  let arrived ← Fs.context "failed to download the archive"
    (download tools world asset.archive staging)
  Prog.ensure (arrived = published) (.msg ("the archive has digest " ++ arrived.display ++
    ", but the sidecar beside it publishes " ++ published.display))
  Fs.context "failed to unpack the archive"
    (Fs.extract tools.codecs world.disk staging DOWNLOAD)
  Fs.context ("failed to remove " ++ (staging.join ⟨DOWNLOAD⟩).text)
    (Fs.removeFile staging DOWNLOAD)
  let held ← Prog.read fun files => holdsLibraries tools (files staging)
  Prog.ensure held (.msg "the archive holds no dynamic library at its root")

/-- The parent directories of the cache are created as well, which `Files` does not tell. -/
def createParent (destination : FilePath) (e : Anyhow) : Fs Event Unit :=
  Prog.ensure destination.parent.isSome e

/-- The last part of `install`: the archive is unpacked beside its destination and moved there. -/
def installAsset (name : AssetName) (asset : PrebuiltAsset) (staging destination : FilePath) :
    Fs Event Installed := do
  let outcome ← Prog.capture (unpack tools world asset staging)
  match outcome with
  | .error e =>
    let _ ← Prog.capture (Fs.removeDirAll world.disk staging)
    Prog.fail (e.context ("failed to unpack " ++ name.text))
  | .ok () =>
    let moved ← Prog.capture (Fs.rename staging destination)
    match moved with
    | .ok () => return .Yes
    | .error e =>
      let _ ← Prog.capture (Fs.removeDirAll world.disk staging)
      let held ← Prog.read fun files => holdsLibraries tools (files destination)
      Prog.ensure held (.msg ("failed to install the prebuilt lints at " ++ destination.text ++
        ": " ++ e.message))
      return .Yes

def install (repository : GitHubRepository) (name : AssetName) (destination : FilePath) :
    Fs Event Installed := do
  Prog.emit (.request ((api tools world).listing tools.http repository))
  let answer ← Prog.lift (withContext ("failed to look for " ++ name.text ++ " in the releases of " ++
    repository.display) ((api tools world).findAsset tools.http world.network repository name))
  match answer with
  | .NoMatch => return .Absent
  | .Unlisted => return .Unlisted
  | .Found asset =>
    let staging := stagingDirectory destination world.disk.pid
    Fs.discard world.disk destination
      ("failed to discard the damaged directory at " ++ destination.text)
    Fs.discard world.disk staging ("failed to discard the abandoned download at " ++ staging.text)
    createParent destination (.msg "the prebuilt directory has no parent")
    Fs.context ("failed to create " ++ staging.text) (Fs.createDirAll world.disk staging)
    installAsset tools world name asset staging destination

/-- Asks a release for libraries and keeps them. Whatever fails is noted, and answers with nothing. -/
def fetch (source : GitLintSource) (tag : AbiTag) (directory : FilePath) :
    Fs Event (Option FilePath) :=
  match GitHubRepository.fromUrl source.url (configuredRepositoryHost tools.http world.env) with
  | none => return none
  | some repository => do
    let name := AssetName.new source.rev tag
    let installed ← Prog.capture (install tools world repository name directory)
    match installed with
    | .ok .Yes => return some directory
    | .ok .Absent =>
      Prog.emit (.notice (.Unpublished source name))
      return none
    | .ok .Unlisted => return none
    | .error e =>
      Prog.emit (.notice (.Unusable source e))
      return none

/-! ## Checkouts -/

/-- Git, where a run has fetched the commit. -/
def gitSource (prepared : List DirEntry) : GitSource.Gix where
  headId := tools.headId
  prepared := fun _ => prepared

/-- The directory is a repository checked out at `rev`. -/
def holds (rev : GitRev) (directory : Option Directory) : Bool :=
  directory.any fun directory => tools.headId directory.entries = some rev.text

/-- Everything that git writes to a directory. -/
def place (staging : FilePath) (entries : List DirEntry) : Fs Event Unit :=
  Fs.call noSuchFile fun files =>
    (files staging).map fun directory => files.set staging (some ⟨directory.owner, entries⟩)

/-- Fetches the pinned commit into `staging` and writes its working tree. -/
def materialize (source : GitLintSource) (staging : FilePath) : Fs Event Unit := do
  Fs.context ("failed to create a repository at " ++ staging.text)
    (Fs.createDirAll world.disk staging)
  Prog.emit (.fetch source)
  Prog.each (place staging) world.git.partials
  let prepared ← Prog.lift world.git.prepared
  place staging prepared
  -- `detach_head`
  Fs.context ("failed to point HEAD at " ++ source.rev.text)
    (Fs.context ("failed to write " ++ (staging.join ⟨GitSource.head⟩).text)
      (Fs.put staging GitSource.head (source.rev.text ++ "\n")))

/-- The last part of `checkout`: the source is fetched beside its destination and moved there. -/
def checkoutInto (source : GitLintSource) (staging destination : FilePath) :
    Fs Event FilePath := do
  Fs.context ("failed to check out " ++ source.rev.text ++ " from " ++
    source.url.display tools.gix) (materialize world source staging)
  let moved ← Prog.capture (Fs.rename staging destination)
  match moved with
  | .ok () => return destination
  | .error e =>
    let _ ← Prog.capture (Fs.removeDirAll world.disk staging)
    let held ← Prog.read fun files => holds tools source.rev (files destination)
    Prog.ensure held (.msg ("failed to install the checkout at " ++ destination.text ++ ": " ++
      e.message))
    return destination

def checkout (source : GitLintSource) (destination : FilePath) : Fs Event FilePath := do
  let held ← Prog.read fun files => holds tools source.rev (files destination)
  if held then
    return destination
  else
    let staging := stagingDirectory destination world.disk.pid
    Fs.discard world.disk destination
      ("failed to discard the damaged checkout at " ++ destination.text)
    Fs.discard world.disk staging ("failed to discard the abandoned checkout at " ++ staging.text)
    createParent destination (.msg "the checkout directory has no parent")
    checkoutInto tools world source staging destination

/-! ## Resolution -/

/-- `prebuilt::cached`. -/
def cachedLibraries (directory : FilePath) (files : Files) : Option FilePath :=
  if holdsLibraries tools (files directory) then some directory else none

/-- `git_source::cached`. -/
def cachedCheckout (source : GitLintSource) (destination : FilePath) (files : Files) :
    Option FilePath :=
  if holds tools source.rev (files destination) then some destination else none

/-- What the machine already holds comes first. The network is asked only if it holds nothing. -/
def resolveGit (root : FilePath) (source : GitLintSource) (tag : AbiTag) :
    Fs Event (FilePath × Contents) := do
  let prebuilt := prebuiltDirectoryIn tools.gix root source tag
  let destination := checkoutDirectoryIn tools.gix root source
  let libraries ← Prog.read (cachedLibraries tools prebuilt)
  match libraries with
  | some directory => return (directory, .Libraries)
  | none =>
    let sources ← Prog.read (cachedCheckout tools source destination)
    match sources with
    | some directory => return (directory, .Sources .Locked)
    | none =>
      let fetched ← Fs.context "failed to fetch prebuilt lints"
        (fetch tools world source tag prebuilt)
      match fetched with
      | some directory => return (directory, .Libraries)
      | none =>
        let directory ← Fs.context "failed to check out the lint source"
          (checkout tools world source destination)
        return (directory, .Sources .Locked)

end

end Resolve

end Stiles
