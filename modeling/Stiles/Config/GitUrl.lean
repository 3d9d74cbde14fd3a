import Stiles.Config.GitRev
import Stiles.General.Text

/-
  The remote of a git lint source (`git_url.rs`).

  `GixUrl` is a remote as gitoxide's parser reads it. Its path is the text that
  `String::from_utf8_lossy` reads from the bytes. How a remote is printed is gitoxide's as well:
  `Gix.toBstring`, which in the `scheme://` form writes the user information before the rest.

  * `slug_shape`: a slug is a directory name, whatever the path of the remote.
  * `display_rotated`, `display_added`: printing a remote hides which credentials it has, but not
    whether it has any.
-/

namespace Stiles

inductive Scheme where
  | File
  | Git
  | Ssh
  | Http
  | Https
  | Ext
  | Helper (name : String)
  | HelperUrl (name : String)
deriving DecidableEq, Repr

def Scheme.asStr : Scheme → String
  | .File => "file"
  | .Git => "git"
  | .Ssh => "ssh"
  | .Http => "http"
  | .Https => "https"
  | .Ext => "ext"
  | .Helper name => name
  | .HelperUrl name => name

structure GixUrl where
  scheme : Scheme
  user : Option String
  password : Option String
  /-- Written as `user@host:path` or as a plain path, rather than with a scheme. -/
  serializeAlternativeForm : Bool
  host : Option String
  port : Option UInt16
  path : String
deriving DecidableEq, Repr

/-- Written as `scheme://`, and not as `user@host:path`, `helper::address` or a plain path. -/
def GixUrl.hasScheme (url : GixUrl) : Bool :=
  match url.scheme with
  | .Ext | .Helper _ => false
  | _ => !url.serializeAlternativeForm

/-- The user information of a remote, as it stands before the host. -/
def userInfo (encode : String → String) (url : GixUrl) : String :=
  match url.user, url.password with
  | none, _ => ""
  | some user, none => encode user ++ "@"
  | some user, some password => encode user ++ ":" ++ encode password ++ "@"

/-- How gitoxide prints a remote. -/
structure Gix where
  toBstring : GixUrl → String
  encode : String → String
  /-- The host, the port and the path. -/
  location : GixUrl → String
  location_userInfo : ∀ (url : GixUrl) (user password : Option String),
    location { url with user, password } = location url
  toBstring_scheme : ∀ url, url.hasScheme = true → url.host.isSome = true →
    toBstring url = url.scheme.asStr ++ "://" ++ userInfo encode url ++ location url

/-- A remote that the configuration accepted. The parser reads no user without a host. -/
structure GitUrl where
  url : GixUrl
  userHasHost : url.user.isSome = true → url.host.isSome = true
deriving Repr

def REDACTED_USERINFO : String := "***"

def FALLBACK_SLUG : String := "repository"

def isAsciiAlphanumeric (c : Char) : Bool :=
  ('a' ≤ c && c ≤ 'z') || ('A' ≤ c && c ≤ 'Z') || c.isDigit

/-- The last segment of the path as a directory name, and `-` for what should not stand there. -/
def GitUrl.slugChars (self : GitUrl) : List Char :=
  let slug := self.url.path.toList.rdropWhile (· = '/')
  let slug := (slug.splitOn '/').getLast?.getD slug
  let slug := (slug.dropSuffix? ".git".toList).getD slug
  let slug := slug.map fun character => if isAsciiAlphanumeric character then character else '-'
  Text.trim (· = '-') slug

def GitUrl.slug (self : GitUrl) : String :=
  if self.slugChars.isEmpty then FALLBACK_SLUG else String.ofList self.slugChars

/-- The remote without its credentials. -/
def redacted (url : GixUrl) : GixUrl :=
  { url with
    password := none
    user := match url.serializeAlternativeForm, url.user with
      | true, user => user
      | false, some _ => some REDACTED_USERINFO
      | false, none => none }

def GitUrl.display (gix : Gix) (self : GitUrl) : String :=
  gix.toBstring (redacted self.url)

structure GitLintSource where
  url : GitUrl
  rev : GitRev

/-- Prints the remotes of accounts and tokens that hold nothing to be escaped. -/
def plainGitoxide : Gix where
  toBstring url :=
    if url.hasScheme then
      url.scheme.asStr ++ "://" ++ userInfo id url ++ url.host.getD "" ++
        ((url.port.map fun port => ":" ++ port.toNat.repr).getD "") ++ url.path
    else
      userInfo id url ++ ((url.host.map (· ++ ":")).getD "") ++ url.path
  encode := id
  location url :=
    url.host.getD "" ++ ((url.port.map fun port => ":" ++ port.toNat.repr).getD "") ++ url.path
  location_userInfo _ _ _ := rfl
  toBstring_scheme url h _ := by
    rw [if_pos h]
    simp only [String.append_assoc]

/-! ## The slug -/

theorem slugChars_mem (self : GitUrl) :
    ∀ c ∈ self.slugChars, isAsciiAlphanumeric c = true ∨ c = '-' := by
  intro c hc
  obtain ⟨character, _, rfl⟩ := List.mem_map.mp (Text.mem_of_mem_trim hc)
  by_cases h : isAsciiAlphanumeric character = true
  · rw [if_pos h]
    exact Or.inl h
  · rw [if_neg h]
    exact Or.inr rfl

/-- A slug is not empty, holds only letters, digits and `-`, and has no `-` at either end. -/
theorem slug_shape (self : GitUrl) : self.slug.toList ≠ [] ∧
    (∀ c ∈ self.slug.toList, isAsciiAlphanumeric c = true ∨ c = '-') ∧
    self.slug.toList.head? ≠ some '-' ∧ self.slug.toList.getLast? ≠ some '-' := by
  rw [GitUrl.slug]
  by_cases h : self.slugChars.isEmpty = true
  · rw [if_pos h]
    have hall : FALLBACK_SLUG.toList.all isAsciiAlphanumeric = true := by decide
    exact ⟨by decide, fun c hc => Or.inl (List.all_eq_true.mp hall c hc), by decide, by decide⟩
  · rw [if_neg h, String.toList_ofList]
    refine ⟨fun hnil => h (List.isEmpty_iff.mpr hnil), slugChars_mem self, ?_, ?_⟩
    · intro hhead
      exact absurd (Text.head_trim hhead) (by decide)
    · intro hlast
      exact absurd (Text.last_trim hlast) (by decide)

/-! ## What a printed remote tells -/

/-- Two remotes in the `scheme://` form that differ in nothing but the user information. -/
structure DifferInUserInfo (a b : GixUrl) : Prop where
  hasScheme : a.hasScheme = true
  same : b = { a with user := b.user, password := b.password }

theorem redacted_hasScheme {url : GixUrl} (h : url.hasScheme = true) :
    redacted url = { url with password := none, user := url.user.map fun _ => REDACTED_USERINFO } := by
  have hform : url.serializeAlternativeForm = false := by
    unfold GixUrl.hasScheme at h
    split at h
    · cases h
    · cases h
    · simpa using h
  rw [redacted, hform]
  cases url.user <;> rfl

theorem DifferInUserInfo.other {a b : GixUrl} (h : DifferInUserInfo a b) : b.hasScheme = true := by
  rw [h.same]
  exact h.hasScheme

theorem DifferInUserInfo.symm {a b : GixUrl} (h : DifferInUserInfo a b) : DifferInUserInfo b a where
  hasScheme := h.other
  same := by
    rw [h.same]

theorem DifferInUserInfo.slug_eq {a b : GitUrl} (h : DifferInUserInfo a.url b.url) :
    a.slug = b.slug := by
  have hpath : a.url.path = b.url.path := by rw [h.same]
  rw [GitUrl.slug, GitUrl.slug, GitUrl.slugChars, GitUrl.slugChars, hpath]

/-- Both have credentials, or neither has. -/
theorem display_rotated (gix : Gix) {a b : GitUrl} (h : DifferInUserInfo a.url b.url)
    (huser : a.url.user.isSome = b.url.user.isSome) : a.display gix = b.display gix := by
  have hmarks : (a.url.user.map fun _ => REDACTED_USERINFO)
      = b.url.user.map fun _ => REDACTED_USERINFO := by
    cases ha : a.url.user <;> cases hb : b.url.user <;> simp [ha, hb] at huser ⊢
  have hsame : redacted a.url = redacted b.url := by
    rw [redacted_hasScheme h.hasScheme, redacted_hasScheme h.other, hmarks, h.same]
  rw [GitUrl.display, GitUrl.display, hsame]

/-- The text of a remote in the `scheme://` form that has a host. -/
theorem display_hasScheme (gix : Gix) {a : GitUrl} (h : a.url.hasScheme = true)
    (hhost : a.url.host.isSome = true) : a.display gix = a.url.scheme.asStr ++ "://" ++
      userInfo gix.encode { a.url with
        password := none, user := a.url.user.map fun _ => REDACTED_USERINFO } ++
      gix.location a.url := by
  have htext := gix.toBstring_scheme
    { a.url with password := none, user := a.url.user.map fun _ => REDACTED_USERINFO } h hhost
  rw [gix.location_userInfo] at htext
  rw [GitUrl.display, redacted_hasScheme h]
  exact htext

/-- One has credentials and the other has none: the mark for them stands in one text only. -/
theorem display_added (gix : Gix) {a b : GitUrl} (h : DifferInUserInfo a.url b.url)
    (ha : a.url.user.isSome = true) (hb : b.url.user = none) : a.display gix ≠ b.display gix := by
  obtain ⟨user, huser⟩ := Option.isSome_iff_exists.mp ha
  have hhost : b.url.host = a.url.host := by rw [h.same]
  have hscheme : b.url.scheme = a.url.scheme := by rw [h.same]
  have hlocation : gix.location b.url = gix.location a.url := by
    rw [h.same, gix.location_userInfo]
  intro heq
  rw [display_hasScheme gix h.hasScheme (a.userHasHost ha),
    display_hasScheme gix h.other (hhost ▸ a.userHasHost ha), hscheme, hlocation] at heq
  have hlength := congrArg String.length heq
  simp only [userInfo, huser, hb, Option.map_some, Option.map_none, String.length_append]
    at hlength
  have hat : ("@" : String).length = 1 := rfl
  have hempty : ("" : String).length = 0 := rfl
  omega

end Stiles
