import Stiles.Config.GitUrl
import Stiles.CustomLints.Handshake
import Stiles.Types.Errors

/-
  The releases that a remote is looked up in (`github_repository.rs`, `github_release.rs`,
  `asset_name.rs`).

  `GitHubRepository.fromUrl` decides whether any API here serves a remote, and names its repository.
  `GitHubApi.findAsset` asks the one configured API for the releases of that name. The URL parser,
  the JSON reader and the network are parameters.

  * `fromUrl_host`: which hosts are served.
  * `keepsHosts_iff`: with which API a listing answers for the remotes of one host only.
-/

namespace Stiles

namespace Releases

/-! ## Repositories -/

def PUBLIC_HOST : String := "github.com"

structure GitHubRepository where
  owner : String
  name : String
deriving DecidableEq, Repr

def GitHubRepository.display (repository : GitHubRepository) : String :=
  repository.owner ++ "/" ++ repository.name

/-- The repository that a path names: an owner and a name, and nothing below it. -/
def ownerAndName (path : String) : Option GitHubRepository :=
  match (Text.trim (· = '/') path.toList).splitOn '/' with
  | [owner, name] =>
    let name := (name.dropSuffix? ".git".toList).getD name
    if owner.isEmpty || name.isEmpty then none
    else some { owner := String.ofList owner, name := String.ofList name }
  | _ => none

/-- The schemes whose remotes can have releases. -/
def mayRelease : Scheme → Bool
  | .Https | .Http | .Ssh | .Git => true
  | .File | .Ext | .Helper _ | .HelperUrl _ => false

/-- An API here serves the public host and its own. -/
def served (apiHost : Option String) (host : String) : Bool :=
  host = PUBLIC_HOST || apiHost = some host

def GitHubRepository.fromUrl (url : GitUrl) (apiHost : Option String) : Option GitHubRepository :=
  if mayRelease url.url.scheme then
    (url.url.host.filter fun host => served apiHost host.toLower).bind fun _ =>
      ownerAndName url.url.path
  else none

/-! ## The API -/

def DEFAULT_BASE : String := "https://api.github.com"

/-- The most of a release listing that is read. -/
def MAX_LISTING : Nat := 8 * 1024 * 1024

/-- The most of a digest file that is read. -/
def MAX_SIDECAR : Nat := 4 * 1024

/-- The most of an archive that is written. -/
def MAX_ARCHIVE : Nat := 512 * 1024 * 1024

/-- The variables that say which API is asked, and with which token. -/
structure Environment where
  /-- `STILES_GITHUB_API_URL`. -/
  apiUrl : Option String
  ghToken : Option String
  githubToken : Option String

structure ReleaseAsset where
  name : String
  url : String
deriving DecidableEq, Repr

structure Release where
  draft : Bool
  assets : List ReleaseAsset
deriving DecidableEq, Repr

/-- What the HTTP client and the JSON reader make of a text. -/
structure Http where
  /-- The host of a URL, if the text is one and has a host. -/
  hostStr : String → Option String
  releases : String → AnyhowResult (List Release)

inductive MediaType where
  | GitHubJson
  | OctetStream
deriving DecidableEq, Repr

def MediaType.asStr : MediaType → String
  | .GitHubJson => "application/vnd.github+json"
  | .OctetStream => "application/octet-stream"

structure Request where
  url : String
  accept : String
  authorization : Option String
deriving DecidableEq, Repr

structure Response where
  status : Nat
  /-- The status as it is printed, with its reason. -/
  statusText : String
  body : ByteArray

def Response.isSuccess (response : Response) : Bool :=
  200 ≤ response.status && response.status < 300

/-- The answer to a request, or why there is none. -/
abbrev Network := Request → AnyhowResult Response

/-- A variable's value. An empty one is as good as none. -/
def present (value : Option String) : Option String :=
  value.filter fun value => !value.isEmpty

def baseFrom (value : Option String) : String :=
  let value := (present value).getD DEFAULT_BASE
  String.ofList (value.toList.rdropWhile (· = '/'))

structure GitHubApi where
  base : String
  apiHost : Option String
  token : Option String

section

variable (http : Http)

def hostOf (base : String) : Option String :=
  (http.hostStr base).map String.toLower

/-- The remote host, besides `github.com`, that the API at `base` answers for. -/
def repositoryHost (base : String) : Option String :=
  if base = DEFAULT_BASE then none else hostOf http base

def configuredRepositoryHost (env : Environment) : Option String :=
  repositoryHost http (baseFrom env.apiUrl)

def GitHubApi.fromEnvironment (env : Environment) : GitHubApi :=
  let base := baseFrom env.apiUrl
  { base
    apiHost := hostOf http base
    token := (present env.ghToken).or (present env.githubToken) }

namespace GitHubApi

/-- `url` is on the host that this API answers for. -/
def serves (api : GitHubApi) (url : String) : Bool :=
  match http.hostStr url, api.apiHost with
  | some host, some apiHost => host.toLower = apiHost.toLower
  | _, _ => false

/-- The request of `get`. The token goes to the API's own host only. -/
def request (api : GitHubApi) (url : String) (accept : MediaType) : Request :=
  { url
    accept := accept.asStr
    authorization := (api.token.filter fun _ => api.serves http url).map ("Bearer " ++ ·) }

def listing (api : GitHubApi) (repository : GitHubRepository) : Request :=
  api.request http (api.base ++ "/repos/" ++ repository.display ++ "/releases?per_page=100")
    .GitHubJson

end GitHubApi

end

/-! ## Archives -/

structure AssetName where
  text : String
deriving DecidableEq, Repr

def AssetName.new (rev : GitRev) (tag : AbiTag) : AssetName :=
  ⟨rev.text ++ "-" ++ tag.text ++ ".tar.gz"⟩

def AssetName.sidecar (name : AssetName) : String :=
  name.text ++ ".sha256"

structure PrebuiltAsset where
  archive : ReleaseAsset
  sidecar : ReleaseAsset
deriving DecidableEq, Repr

inductive AssetSearch where
  | Found (asset : PrebuiltAsset)
  | NoMatch
  | Unlisted
deriving DecidableEq, Repr

/-- The archive and its sidecar, from the first release that is no draft and has both. -/
def selectAsset (releases : List Release) (name : AssetName) : Option PrebuiltAsset :=
  (releases.filter fun release => !release.draft).findSome? fun release =>
    match release.assets.find? fun it => it.name = name.text with
    | none => none
    | some archive =>
      match release.assets.find? fun it => it.name = name.sidecar with
      | none => none
      | some sidecar => some { archive, sidecar }

/-- At most `cap` bytes of `body` as text. -/
def readText (body : ByteArray) (cap : Nat) (what : String) : AnyhowResult String :=
  match String.fromUTF8? (body.extract 0 (cap + 1)) with
  | none => withContext ("failed to read " ++ what)
      (.error (.msg "stream did not contain valid UTF-8"))
  | some text =>
    if text.utf8ByteSize ≤ cap then .ok text
    else .error (.msg (what ++ " is longer than the " ++ cap.repr ++ " bytes stiles reads"))

section

variable (http : Http) (network : Network)

def GitHubApi.findAsset (api : GitHubApi) (repository : GitHubRepository) (name : AssetName) :
    AnyhowResult AssetSearch := do
  let response ← withContext ("failed to ask " ++ repository.display ++ " for its releases")
    (withContext "the request failed" (network (api.listing http repository)))
  if response.status = 404 then
    return .Unlisted
  if !response.isSuccess then
    throw (.msg ("the release API answered " ++ response.statusText ++ " for " ++
      repository.display))
  let body ← withContext ("failed to read the releases of " ++ repository.display)
    (readText response.body MAX_LISTING ("the releases of " ++ repository.display))
  let releases ← withContext ("failed to read the releases of " ++ repository.display ++ " as JSON")
    (http.releases body)
  match selectAsset releases name with
  | some asset => return .Found asset
  | none => return .NoMatch

/-- The body of an asset, from the address that the API has for it. -/
def GitHubApi.body (api : GitHubApi) (asset : ReleaseAsset) : AnyhowResult ByteArray := do
  let response ← withContext ("failed to download " ++ asset.name)
    (withContext "the request failed" (network (api.request http asset.url .OctetStream)))
  if !response.isSuccess then
    throw (.msg ("the release API answered " ++ response.statusText ++ " for " ++ asset.name))
  return response.body

def GitHubApi.downloadText (api : GitHubApi) (asset : ReleaseAsset) : AnyhowResult String := do
  let body ← api.body http network asset
  readText body MAX_SIDECAR asset.name

/-- What `fetch` asks the network first, or `none` if it asks nothing and the source is compiled. -/
def asked (env : Environment) (url : GitUrl) : Option Request :=
  (GitHubRepository.fromUrl url (configuredRepositoryHost http env)).map
    ((GitHubApi.fromEnvironment http env).listing http)

end

variable {http : Http} {network : Network} {env : Environment}

/-! ## Which hosts are served -/

theorem fromUrl_host {url : GitUrl} {apiHost : Option String} {repository : GitHubRepository}
    (h : GitHubRepository.fromUrl url apiHost = some repository) :
    ∃ host, url.url.host = some host ∧ served apiHost host.toLower = true := by
  rw [GitHubRepository.fromUrl] at h
  split at h
  · obtain ⟨host, hhost, _⟩ := Option.bind_eq_some_iff.mp h
    exact ⟨host, Option.filter_eq_some_iff.mp hhost⟩
  · cases h

/-- The remote `https://<host>/team/rules`. -/
def teamRules (host : String) : GitUrl where
  url := {
    scheme := .Https
    user := none
    password := none
    serializeAlternativeForm := false
    host := some host
    port := none
    path := "/team/rules" }
  userHasHost _ := rfl

theorem fromUrl_teamRules {host : String} {apiHost : Option String}
    (h : served apiHost host.toLower = true) :
    GitHubRepository.fromUrl (teamRules host) apiHost = some ⟨"team", "rules"⟩ := by
  have hpath : ownerAndName "/team/rules" = some ⟨"team", "rules"⟩ := by decide
  have hown : (teamRules host).url.path = "/team/rules" := rfl
  have hscheme : mayRelease (teamRules host).url.scheme = true := rfl
  have hhost : (teamRules host).url.host.filter (fun host => served apiHost host.toLower)
      = some host := by
    rw [show (teamRules host).url.host = some host from rfl, Option.filter_some, if_pos h]
  rw [GitHubRepository.fromUrl, if_pos hscheme, hhost, Option.bind_some, hown, hpath]

/-! ## One host for one listing -/

/-- The public API answers for the remotes on `github.com`, and any other one for those on the host
    that it is reached on. -/
def AnswersFor (http : Http) (base host : String) : Prop :=
  if base = DEFAULT_BASE then host = PUBLIC_HOST else hostOf http base = some host

/-- The same, as one host. -/
theorem AnswersFor.unique {base host host' : String} (h : AnswersFor http base host)
    (h' : AnswersFor http base host') : host = host' := by
  unfold AnswersFor at h h'
  split at h
  · rename_i hbase
    rw [if_pos hbase] at h'
    rw [h, h']
  · rename_i hbase
    rw [if_neg hbase, h] at h'
    exact Option.some.inj h'

/-- No listing answers for two remotes on different hosts, and a remote is looked up only if the
    configured API answers for its host. Hosts are compared without case. -/
def KeepsHosts (http : Http) (env : Environment) : Prop :=
  (∀ (url url' : GitUrl) (host host' : String), url.url.host = some host →
    url'.url.host = some host' → host.toLower ≠ host'.toLower →
    ∀ request, asked http env url = some request → asked http env url' ≠ some request) ∧
  ∀ (url : GitUrl) (request : Request), asked http env url = some request →
    ∃ host, url.url.host = some host ∧ AnswersFor http (baseFrom env.apiUrl) host.toLower

/-- A host is served if it is `github.com` or the API answers for it. -/
theorem served_iff {host : String} :
    served (configuredRepositoryHost http env) host = true ↔
      host = PUBLIC_HOST ∨ AnswersFor http (baseFrom env.apiUrl) host := by
  rw [served, Bool.or_eq_true, decide_eq_true_eq, decide_eq_true_eq, configuredRepositoryHost,
    repositoryHost, AnswersFor]
  by_cases hbase : baseFrom env.apiUrl = DEFAULT_BASE
  · rw [if_pos hbase, if_pos hbase]
    simp
  · rw [if_neg hbase, if_neg hbase]

theorem asked_teamRules {host : String}
    (h : host.toLower = PUBLIC_HOST ∨ AnswersFor http (baseFrom env.apiUrl) host.toLower) :
    asked http env (teamRules host) = some
      ((GitHubApi.fromEnvironment http env).listing http ⟨"team", "rules"⟩) := by
  rw [asked, fromUrl_teamRules (served_iff.mpr h), Option.map_some]

/-- A remote is looked up at an API that answers for its host, or is on `github.com`. -/
theorem asked_host {url : GitUrl} {request : Request} (h : asked http env url = some request) :
    ∃ host, url.url.host = some host ∧
      (host.toLower = PUBLIC_HOST ∨ AnswersFor http (baseFrom env.apiUrl) host.toLower) := by
  obtain ⟨repository, hrepository, _⟩ := Option.map_eq_some_iff.mp h
  obtain ⟨host, hhost, hserved⟩ := fromUrl_host hrepository
  exact ⟨host, hhost, served_iff.mp hserved⟩

theorem answersFor_public : AnswersFor http (baseFrom env.apiUrl) PUBLIC_HOST ↔
    baseFrom env.apiUrl = DEFAULT_BASE ∨
      hostOf http (baseFrom env.apiUrl) = some PUBLIC_HOST := by
  rw [AnswersFor]
  by_cases hbase : baseFrom env.apiUrl = DEFAULT_BASE
  · simp [hbase]
  · simp [hbase]

-- A proof about it goes through the lemmas above, not through the comparison of two texts.
attribute [irreducible] AnswersFor

/-- The hosts are kept apart exactly with the public API and with one that is reached on
    `github.com` itself, because remotes on that host are looked up with every API. -/
theorem keepsHosts_iff (http : Http) (env : Environment) : KeepsHosts http env ↔
    baseFrom env.apiUrl = DEFAULT_BASE ∨
      hostOf http (baseFrom env.apiUrl) = some PUBLIC_HOST := by
  rw [← answersFor_public]
  constructor
  · intro h
    have hlower : PUBLIC_HOST.toLower = PUBLIC_HOST := by decide +kernel
    have hasked : asked http env (teamRules PUBLIC_HOST) = some
        ((GitHubApi.fromEnvironment http env).listing http ⟨"team", "rules"⟩) :=
      asked_teamRules (Or.inl hlower)
    obtain ⟨host, hhost, hanswers⟩ := h.2 (teamRules PUBLIC_HOST) _ hasked
    have hpublic : PUBLIC_HOST = host := Option.some.inj hhost
    rw [← hpublic, hlower] at hanswers
    exact hanswers
  · intro h
    have hown : ∀ (url : GitUrl) (request : Request), asked http env url = some request →
        ∃ host, url.url.host = some host ∧
          AnswersFor http (baseFrom env.apiUrl) host.toLower := by
      intro url request hasked
      obtain ⟨host, hhost, hserved⟩ := asked_host hasked
      refine ⟨host, hhost, ?_⟩
      rcases hserved with hpublic | hanswers
      · rw [hpublic]
        exact h
      · exact hanswers
    refine ⟨?_, hown⟩
    intro url url' host host' hhost hhost' hne request hasked hasked'
    obtain ⟨other, hother, hanswers⟩ := hown url request hasked
    obtain ⟨other', hother', hanswers'⟩ := hown url' request hasked'
    rw [hhost, Option.some.injEq] at hother
    rw [hhost', Option.some.injEq] at hother'
    rw [hother, hother'] at hne
    exact hne (hanswers.unique hanswers')

/-- Reads the host of an address without user information. -/
def plainHttp : Http where
  hostStr url :=
    (url.toList.dropPrefix? "https://".toList).map fun rest =>
      String.ofList (rest.takeWhile fun c => c ≠ '/' && c ≠ ':' && c ≠ '?')
  releases _ := .ok []

/-- The API of an installation of its own. -/
def acme : Environment where
  apiUrl := some "https://github.acme.example/api/v3"
  ghToken := none
  githubToken := none

/-- A repository of the installation and one of the same name on `github.com` are looked up in the
    same listing. -/
theorem acme_answers_for_github :
    asked plainHttp acme (teamRules "github.com")
        = asked plainHttp acme (teamRules "github.acme.example") ∧
      (asked plainHttp acme (teamRules "github.com")).map Request.url
        = some "https://github.acme.example/api/v3/repos/team/rules/releases?per_page=100" ∧
      ¬KeepsHosts plainHttp acme := by
  have hpublic : "github.com".toLower = PUBLIC_HOST := by decide +kernel
  have hacme : AnswersFor plainHttp (baseFrom acme.apiUrl) "github.acme.example".toLower := by
    have hbase : baseFrom acme.apiUrl ≠ DEFAULT_BASE := by decide
    rw [AnswersFor, if_neg hbase]
    rfl
  have hsame : asked plainHttp acme (teamRules "github.com")
      = asked plainHttp acme (teamRules "github.acme.example") := by
    rw [asked_teamRules (Or.inl hpublic), asked_teamRules (Or.inr hacme)]
  have hurl : (asked plainHttp acme (teamRules "github.com")).map Request.url
      = some "https://github.acme.example/api/v3/repos/team/rules/releases?per_page=100" := by
    decide +kernel
  refine ⟨hsame, hurl, ?_⟩
  intro h
  obtain ⟨request, hasked, _⟩ := Option.map_eq_some_iff.mp hurl
  have hhosts : "github.com".toLower ≠ "github.acme.example".toLower := by decide +kernel
  exact h.1 _ _ _ _ rfl rfl hhosts request hasked (hsame ▸ hasked)

end Releases

end Stiles
