import Stiles.CustomLints.ResolveRuns

/-
  The configured lint sources of a run (`configured_sources`), and remotes that differ in their user
  information only.

  The entries are resolved in order, each in the cache that the ones before it left.

  * `resolveGit_settled`: whatever was in the cache, what `resolve_git` returns is there, and no
    other entry changed.
  * `configuredSources_twice`: two entries with one remote directory and revision are refused.
  * `sharesCache_iff`: which of those remotes share a place in the cache.
-/

namespace Stiles

namespace Resolve

open Crash (Prog Triple)
open Fs (Around)

/-! ## One source, in any cache -/

section

variable {tools : Tools} {world : World} {root : FilePath} {source : GitLintSource}
  {identity : AbiIdentity} {target : Target} {files base : Files}

/-- The commit that git fetched is the one that `HEAD` is pointed at. -/
def World.Detaches (tools : Tools) (world : World) (rev : GitRev) : Prop :=
  ∀ prepared, world.git.prepared = .ok prepared →
    tools.headId (GitSource.detachHead prepared rev.text) = some rev.text

theorem placed_other {staging destination path : FilePath} {pid : Nat} {entries : List DirEntry}
    (hdestination : path ≠ destination) (hstaging : path ≠ staging) :
    placed base staging destination pid entries path = base path := by
  rw [placed, Files.set_other _ _ hdestination, Files.set_other _ _ hstaging]

theorem placed_same {staging destination : FilePath} {pid : Nat} {entries : List DirEntry} :
    placed base staging destination pid entries destination = some ⟨some pid, entries⟩ :=
  Files.set_same ..

/-- What a run returned, the cache holds, and every other entry is as before. -/
def Settled (tools : Tools) (root : FilePath) (source : GitLintSource) (tag : AbiTag)
    (files : Files) (r : AnyhowResult (FilePath × Contents)) (t : Files) : Prop :=
  ∀ pair, r = .ok pair → cached tools root source tag t = some pair ∧
    ∀ entry : CacheEntry, entry.path tools.gix root ≠ prebuiltAt tools root source tag →
      entry.path tools.gix root ≠ checkoutAt tools root source →
      t (entry.path tools.gix root) = files (entry.path tools.gix root)

/-- The part of a run after the releases had nothing for it. -/
theorem checkout_settled {tag : AbiTag} (htag : tag = AbiTag.new identity target.text)
    (hgix : world.Detaches tools source.rev)
    (hlibraries : holdsLibraries tools (base (prebuiltAt tools root source tag)) = false)
    (hsources : holds tools source.rev (base (checkoutAt tools root source)) = false)
    (hbase : ∀ entry : CacheEntry, entry.path tools.gix root ≠ prebuiltAt tools root source tag →
      base (entry.path tools.gix root) = files (entry.path tools.gix root)) :
    Triple (fun t => t = base)
      (do
        let destination ← Fs.context "failed to check out the lint source"
          (checkout tools world source (checkoutAt tools root source))
        return (destination, .Sources .Locked))
      (Settled tools root source tag files) (fun _ => True) := by
  have hparent : (checkoutAt tools root source).parent.isSome = true :=
    path_parent root (.checkout source)
  cases hprepared : world.git.prepared with
  | error e =>
    have hspec : Triple (fun t => t = base)
        (checkout tools world source (checkoutAt tools root source)) _ _ :=
      checkout_fails base source _ hsources rfl hparent hprepared
    exact Triple.bind_error (Fs.context_error (hspec.mono_cut fun _ _ => trivial)) fun t _ => nofun
  | ok prepared =>
    have hspec : Triple (fun t => t = base)
        (checkout tools world source (checkoutAt tools root source)) _ _ :=
      checkout_places base source _ hsources rfl hparent hprepared
    refine Triple.bind_ok (Fs.context_ok (hspec.mono_cut fun _ _ => trivial))
      (Triple.pure fun t ht => ?_)
    intro pair hpair
    have hstaging : ∀ entry : CacheEntry, entry.path tools.gix root
        ≠ world.staging (checkoutAt tools root source) := fun entry =>
      (staging_ne_path root (.checkout source) entry _).symm
    have hother : ∀ entry : CacheEntry,
        entry.path tools.gix root ≠ checkoutAt tools root source →
        t (entry.path tools.gix root) = base (entry.path tools.gix root) := by
      intro entry hentry
      rw [ht, placed_other hentry (hstaging entry), Files.set_other _ _ hentry]
    have hne : prebuiltAt tools root source tag ≠ checkoutAt tools root source := by
      rw [htag]
      exact prebuiltAt_ne_checkoutAt
    refine ⟨?_, fun entry hprebuilt hcheckout => ?_⟩
    · have hkept : t (prebuiltAt tools root source tag) = base (prebuiltAt tools root source tag) := by
        rw [htag] at hne ⊢
        exact hother (.prebuilt source identity target) hne
      have hheld : holds tools source.rev (t (checkoutAt tools root source)) = true := by
        rw [ht, placed_same]
        exact decide_eq_true (hgix prepared hprepared)
      rw [cached, hkept, hlibraries, hheld, if_neg Bool.false_ne_true, if_pos rfl,
        Except.ok.inj hpair]
    · rw [hother entry hcheckout, hbase entry hprebuilt]

/-- What a run returns, from whatever was in the cache. -/
theorem resolveGit_settled {tag : AbiTag} (htag : tag = AbiTag.new identity target.text)
    (hgix : world.Detaches tools source.rev) (files : Files) :
    Triple (fun t => t = files) (resolveGit tools world root source tag)
      (Settled tools root source tag files) (fun _ => True) := by
  cases hcached : cached tools root source tag files with
  | some pair =>
    intro t ht
    rw [ht, resolveGit_cached hcached]
    refine ⟨fun pair' hpair => ?_, fun _ _ => trivial⟩
    rw [hcached, Except.ok.inj hpair]
    exact ⟨rfl, fun _ _ _ => rfl⟩
  | none =>
    obtain ⟨hlibraries, hsources⟩ := cached_eq_none hcached
    have hparent : (prebuiltAt tools root source tag).parent.isSome = true := by
      rw [htag]
      exact path_parent root (.prebuilt source identity target)
    have hstaging : ∀ entry : CacheEntry, entry.path tools.gix root
        ≠ world.staging (prebuiltAt tools root source tag) := by
      intro entry
      rw [htag]
      exact (staging_ne_path root (.prebuilt source identity target) entry _).symm
    have hspec : Triple (fun t => t = files)
        (fetch tools world source tag (prebuiltAt tools root source tag)) _ _ :=
      fetch_spec files source tag _ rfl hparent rfl rfl
    have hfetch := hspec.mono_cut (fun _ _ => trivial)
    refine Triple.read_bind_eq (a := none) ?_ (Triple.read_bind_eq (a := none) ?_ ?_)
    · intro t ht
      rw [ht, cachedLibraries]
      exact if_neg (Bool.eq_false_iff.mp hlibraries)
    · intro t ht
      rw [ht, cachedCheckout]
      exact if_neg (Bool.eq_false_iff.mp hsources)
    · cases hresult : fetchedEntries tools world source tag (prebuiltAt tools root source tag) with
      | some entries =>
        rw [hresult] at hfetch
        refine Triple.bind_ok (Fs.context_ok hfetch) (Triple.pure fun t ht => ?_)
        intro pair hpair
        refine ⟨?_, fun entry hprebuilt _ => ?_⟩
        · have hheld : holdsLibraries tools (t (prebuiltAt tools root source tag)) = true := by
            rw [ht, placed_same]
            exact (fetchedEntries_eq_some hresult).1
          rw [cached, if_pos hheld, Except.ok.inj hpair]
        · rw [ht, placed_other hprebuilt (hstaging entry), Files.set_other _ _ hprebuilt]
      | none =>
        rw [hresult] at hfetch
        refine Triple.bind_ok (Fs.context_ok hfetch) ?_
        intro t ht
        have hne : checkoutAt tools root source ≠ prebuiltAt tools root source tag := by
          rw [htag]
          exact prebuiltAt_ne_checkoutAt.symm
        have hother : ∀ entry : CacheEntry,
            entry.path tools.gix root ≠ prebuiltAt tools root source tag →
            t (entry.path tools.gix root) = files (entry.path tools.gix root) := by
          intro entry hentry
          rcases ht with rfl | ⟨directory, rfl⟩
          · rfl
          · rw [Files.set_other _ _ (hstaging entry), Files.set_other _ _ hentry]
        have hkept : holdsLibraries tools (t (prebuiltAt tools root source tag)) = false := by
          rcases ht with rfl | ⟨directory, rfl⟩
          · exact hlibraries
          · rw [Files.set_other _ _ (stagingDirectory_ne _ _).symm, Files.set_same]
            rfl
        refine checkout_settled htag hgix hkept ?_ hother t rfl
        have hsame := hother (.checkout source) hne
        rw [CacheEntry.path] at hsame
        rw [checkoutAt, hsame]
        exact hsources

end

/-! ## The sources of a configuration -/

inductive LintSource where
  | Path (path : FilePath)
  | Git (git : GitLintSource)

def LintSource.display (gix : Gix) : LintSource → String
  | .Path path => path.text
  | .Git git => git.url.display gix ++ " at " ++ git.rev.text

/-- What the machine tells of paths outside the cache. -/
structure Os where
  exists_ : FilePath → Bool
  isDir : FilePath → Bool
  isFile : FilePath → Bool
  canonicalize : FilePath → AnyhowResult FilePath

structure Resolved where
  directory : FilePath
  contents : Contents
deriving DecidableEq, Repr

section

variable (tools : Tools) (os : Os) (root project : FilePath) (tag : AbiTag)

def configuredTwice (entry : LintSource) (directory : FilePath) : Anyhow :=
  .msg ("the lint source " ++ entry.display tools.gix ++ " resolves to " ++ directory.text ++
    ", which an earlier entry already configured")

/-- The canonical path names the same directory. -/
def holdsManifest (files : Files) (directory canonical : FilePath) : Bool :=
  match files directory with
  | some there => there.entries.any fun entry => entry.name = "Cargo.toml" && entry.isFile
  | none => os.isFile (canonical.join ⟨"Cargo.toml"⟩)

def located (entry : LintSource) (world : World) : Fs Event (FilePath × Contents) :=
  match entry with
  | .Path path => pure (project.join path, .Sources .Unlocked)
  | .Git git => Fs.context ("failed to resolve the lint source " ++ entry.display tools.gix)
      (resolveGit tools world root git tag)

/-- The checks of a directory, which return its canonical path. -/
def inspect (files : Files) (entry : LintSource) (found : FilePath × Contents) :
    AnyhowResult FilePath := do
  let (directory, contents) := found
  let place := "the lint source " ++ entry.display tools.gix ++ " resolves to " ++ directory.text
  if !((files directory).isSome || os.exists_ directory) then
    throw (.msg (place ++ ", which does not exist"))
  if !((files directory).isSome || os.isDir directory) then
    throw (.msg (place ++ ", which is not a directory"))
  let canonical ← withContext ("failed to resolve the lint source " ++ entry.display tools.gix)
    (os.canonicalize directory)
  match contents with
  | .Sources _ =>
    if holdsManifest os files directory canonical then return canonical
    else throw (.msg ("the lint source " ++ entry.display tools.gix ++ " holds no Cargo.toml"))
  | .Libraries => return canonical

/-- `seen` holds the directories of the entries before. -/
def check (files : Files) (seen : List FilePath) (entry : LintSource)
    (found : FilePath × Contents) : AnyhowResult Resolved := do
  let directory ← inspect tools os files entry found
  if directory ∈ seen then
    throw (configuredTwice tools entry directory)
  return { directory, contents := found.2 }

def configuredSource (seen : List FilePath) (entry : LintSource) (world : World) :
    Fs Event Resolved := do
  let found ← located tools root project tag entry world
  Prog.query fun files => check tools os files seen entry found

/-- Each entry comes with what it meets outside the cache. -/
def configuredSources (seen : List FilePath) : List (LintSource × World) → Fs Event (List Resolved)
  | [] => return []
  | (entry, world) :: entries => do
    let resolved ← configuredSource tools os root project tag seen entry world
    let others ← configuredSources (resolved.directory :: seen) entries
    return resolved :: others

end

section

variable {tools : Tools} {os : Os} {root project : FilePath} {tag : AbiTag} {files files' : Files}
  {seen seen' : List FilePath} {entry entry' : LintSource} {world : World}
  {found : FilePath × Contents} {directory : FilePath}

/-- The entry stands in the errors only, and the files in what the directory holds. -/
theorem inspect_congr (h : inspect tools os files entry found = .ok directory)
    (hsame : files' found.1 = files found.1) :
    inspect tools os files' entry' found = .ok directory := by
  obtain ⟨path, contents⟩ := found
  have hmanifest : ∀ canonical, holdsManifest os files' path canonical
      = holdsManifest os files path canonical := by
    intro canonical
    rw [holdsManifest, holdsManifest, hsame]
  rw [inspect] at h ⊢
  simp only [hsame, hmanifest] at h ⊢
  cases hexists : (files path).isSome || os.exists_ path with
  | false =>
    rw [hexists] at h
    cases h
  | true =>
    cases hdir : (files path).isSome || os.isDir path with
    | false =>
      rw [hexists, hdir] at h
      cases h
    | true =>
      cases hcanonical : os.canonicalize path with
      | error e =>
        rw [hexists, hdir, hcanonical] at h
        cases h
      | ok canonical =>
        rw [hexists, hdir, hcanonical] at h
        cases contents with
        | Libraries => exact h
        | Sources locking =>
          change (if holdsManifest os files path canonical = true then Except.ok canonical
            else Except.error _) = Except.ok directory at h
          change (if holdsManifest os files path canonical = true then Except.ok canonical
            else Except.error _) = Except.ok directory
          by_cases hheld : holdsManifest os files path canonical = true
          · rw [if_pos hheld] at h ⊢
            exact h
          · rw [if_neg hheld] at h
            cases h

theorem check_eq_ok {resolved : Resolved}
    (h : check tools os files seen entry found = .ok resolved) :
    inspect tools os files entry found = .ok resolved.directory ∧ resolved.directory ∉ seen := by
  rw [check] at h
  cases hdirectory : inspect tools os files entry found with
  | error e =>
    rw [hdirectory] at h
    cases h
  | ok directory =>
    rw [hdirectory] at h
    change (if directory ∈ seen then Except.error _ else Except.ok _) = Except.ok resolved at h
    by_cases hseen : directory ∈ seen
    · rw [if_pos hseen] at h
      cases h
    · rw [if_neg hseen] at h
      rw [← Except.ok.inj h]
      exact ⟨rfl, hseen⟩

theorem check_contents {resolved : Resolved}
    (h : check tools os files seen entry found = .ok resolved) : resolved.contents = found.2 := by
  obtain ⟨hdirectory, hseen⟩ := check_eq_ok h
  rw [check, hdirectory] at h
  change (if resolved.directory ∈ seen then Except.error _ else Except.ok _) = _ at h
  rw [if_neg hseen] at h
  rw [← Except.ok.inj h]

/-- A directory that an entry before resolved to. -/
theorem check_twice (h : inspect tools os files entry found = .ok directory)
    (hseen : directory ∈ seen) :
    check tools os files seen entry found = .error (configuredTwice tools entry directory) := by
  rw [check, h]
  exact if_pos hseen

/-! ## Entries in order -/

theorem configuredSource_eq_ok {resolved : Resolved}
    (h : (configuredSource tools os root project tag seen entry world files).value
      = .ok resolved) :
    ∃ found, (located tools root project tag entry world files).value = .ok found ∧
      (configuredSource tools os root project tag seen entry world files).final
        = (located tools root project tag entry world files).final ∧
      check tools os (located tools root project tag entry world files).final seen entry found
        = .ok resolved := by
  rw [configuredSource] at h ⊢
  cases hfound : (located tools root project tag entry world files).value with
  | error e =>
    rw [Prog.bind_of_error hfound] at h
    cases h
  | ok found =>
    obtain ⟨hvalue, hfinal⟩ := Prog.bind_of_ok (f := fun found =>
      Prog.query fun files => check tools os files seen entry found) hfound
    rw [hvalue] at h
    exact ⟨found, rfl, hfinal, h⟩

/-- A directory of the project is built as it stands, and a remote gives libraries or sources that
    are locked. -/
def LintSource.Gives : LintSource → Contents → Prop
  | .Path _, contents => contents = .Sources .Unlocked
  | .Git _, contents => contents = .Libraries ∨ contents = .Sources .Locked

theorem resolveGit_gives {git : GitLintSource}
    (h : (resolveGit tools world root git tag files).value = .ok found) :
    found.2 = .Libraries ∨ found.2 = .Sources .Locked := by
  obtain ⟨libraries, -, h⟩ := Prog.bind_eq_ok.mp h
  cases libraries with
  | some directory =>
    rw [← Except.ok.inj h]
    exact Or.inl rfl
  | none =>
    obtain ⟨sources, -, h⟩ := Prog.bind_eq_ok.mp h
    cases sources with
    | some directory =>
      rw [← Except.ok.inj h]
      exact Or.inr rfl
    | none =>
      obtain ⟨fetched, -, h⟩ := Prog.bind_eq_ok.mp h
      cases fetched with
      | some directory =>
        rw [← Except.ok.inj h]
        exact Or.inl rfl
      | none =>
        obtain ⟨directory, -, h⟩ := Prog.bind_eq_ok.mp h
        rw [← Except.ok.inj h]
        exact Or.inr rfl

theorem configuredSource_gives {resolved : Resolved}
    (h : (configuredSource tools os root project tag seen entry world files).value =
      .ok resolved) : entry.Gives resolved.contents := by
  obtain ⟨found, hfound, -, hcheck⟩ := configuredSource_eq_ok h
  rw [check_contents hcheck]
  cases entry with
  | Path path =>
    rw [← Except.ok.inj hfound]
    rfl
  | Git git =>
    exact resolveGit_gives (mapError_eq_ok.mp hfound)

/-- Each source is what its entry gives. -/
theorem configuredSources_gives {entries : List (LintSource × World)} {sources : List Resolved}
    (h : (configuredSources tools os root project tag seen entries files).value = .ok sources) :
    List.Forall₂ (fun entry source => entry.1.Gives source.contents) entries sources := by
  induction entries generalizing seen files sources with
  | nil =>
    rw [← Except.ok.inj h]
    exact .nil
  | cons entry entries ih =>
    obtain ⟨resolved, hresolved, h⟩ := Prog.bind_eq_ok.mp h
    obtain ⟨others, hothers, h⟩ := Prog.bind_eq_ok.mp h
    rw [← Except.ok.inj h]
    exact .cons (configuredSource_gives hresolved) (ih hothers)

/-- What the entries from `first` on are refused with, if those of `first` are not. -/
def Refused (tools : Tools) (os : Os) (root project : FilePath) (tag : AbiTag)
    (seen : List FilePath) (first : List (LintSource × World)) (entry : LintSource)
    (rest : List (LintSource × World)) (files : Files) : Prop :=
  ∃ e, (configuredSources tools os root project tag seen (first ++ rest) files).value = .error e ∧
    ∀ resolved, (configuredSources tools os root project tag seen first files).value
        = .ok resolved →
      ∃ directory, (directory ∈ seen ∨ ∃ other ∈ resolved, other.directory = directory) ∧
        e = configuredTwice tools entry directory

/-- An entry before: it is refused itself, or the ones after it are. -/
theorem Refused.cons {first rest : List (LintSource × World)} (before : LintSource × World)
    (h : ∀ resolved,
      (configuredSource tools os root project tag seen before.1 before.2 files).value
        = .ok resolved →
      Refused tools os root project tag (resolved.directory :: seen) first entry rest
        (configuredSource tools os root project tag seen before.1 before.2 files).final) :
    Refused tools os root project tag seen (before :: first) entry rest files := by
  obtain ⟨other, world⟩ := before
  rw [Refused, List.cons_append, configuredSources, configuredSources]
  cases hresolved : (configuredSource tools os root project tag seen other world files).value with
  | error e =>
    refine ⟨e, Prog.bind_of_error hresolved, fun resolved hall => ?_⟩
    rw [Prog.bind_of_error hresolved] at hall
    cases hall
  | ok resolved =>
    obtain ⟨e, he, hends⟩ := h resolved hresolved
    refine ⟨e, (Prog.bind_of_ok hresolved).1.trans (Prog.bind_of_error he), fun all hall => ?_⟩
    rw [(Prog.bind_of_ok hresolved).1] at hall
    cases hothers : (configuredSources tools os root project tag (resolved.directory :: seen) first
        (configuredSource tools os root project tag seen other world files).final).value with
    | error e' =>
      rw [Prog.bind_of_error hothers] at hall
      cases hall
    | ok others =>
      rw [(Prog.bind_of_ok hothers).1] at hall
      have hall : resolved :: others = all := Except.ok.inj hall
      obtain ⟨directory, hdirectory, hmessage⟩ := hends others hothers
      refine ⟨directory, ?_, hmessage⟩
      rcases hdirectory with hseen | ⟨other', hother', hdirectory'⟩
      · rcases List.mem_cons.mp hseen with hfirst | hbefore
        · exact Or.inr ⟨resolved, hall ▸ List.mem_cons_self, hfirst.symm⟩
        · exact Or.inl hbefore
      · exact Or.inr ⟨other', hall ▸ List.mem_cons_of_mem _ hother', hdirectory'⟩

/-! ## One directory, configured twice -/

section

variable {identity : AbiIdentity} {target : Target} {a b : GitLintSource}

theorem rev_ext (h : a.rev.text = b.rev.text) : a.rev = b.rev := by
  cases ha : a.rev with
  | mk text accepted =>
    cases hb : b.rev with
    | mk text' accepted' =>
      rw [ha, hb] at h
      subst h
      rfl

theorem prebuiltAt_inj (htag : tag = AbiTag.new identity target.text)
    (h : prebuiltAt tools root a tag = prebuiltAt tools root b tag) :
    remoteDirectory tools.gix a = remoteDirectory tools.gix b ∧ a.rev = b.rev := by
  rw [htag] at h
  have hsegments := segments_of_path (a := .prebuilt a identity target)
    (b := .prebuilt b identity target) root h
  have hnames := (List.cons.inj hsegments).2
  exact ⟨(List.cons.inj hnames).1, rev_ext (List.cons.inj (List.cons.inj hnames).2).1⟩

theorem checkoutAt_inj (h : checkoutAt tools root a = checkoutAt tools root b) :
    remoteDirectory tools.gix a = remoteDirectory tools.gix b ∧ a.rev = b.rev := by
  have hsegments := segments_of_path (a := .checkout a) (b := .checkout b) root h
  have hnames := (List.cons.inj hsegments).2
  exact ⟨(List.cons.inj hnames).1, rev_ext (List.cons.inj (List.cons.inj hnames).2).1⟩

theorem cached_congr (hremote : remoteDirectory tools.gix a = remoteDirectory tools.gix b)
    (hrev : a.rev = b.rev) : cached tools root a tag files = cached tools root b tag files := by
  rw [cached, cached, prebuiltAt, prebuiltAt, checkoutAt, checkoutAt, prebuiltDirectoryIn,
    prebuiltDirectoryIn, checkoutDirectoryIn, checkoutDirectoryIn, hremote, hrev]

theorem cached_fst {pair : FilePath × Contents} (h : cached tools root a tag files = some pair) :
    pair.1 = prebuiltAt tools root a tag ∨ pair.1 = checkoutAt tools root a := by
  rw [cached] at h
  split at h
  · exact Or.inl (congrArg Prod.fst (Option.some.inj h)).symm
  · split at h
    · exact Or.inr (congrArg Prod.fst (Option.some.inj h)).symm
    · cases h

/-- Whatever else is resolved, what the cache holds for a source stays. -/
theorem located_keeps (htag : tag = AbiTag.new identity target.text)
    (hgix : ∀ git, entry = .Git git → world.Detaches tools git.rev)
    (hcached : cached tools root a tag files = some found) {found' : FilePath × Contents}
    (h : (located tools root project tag entry world files).value = .ok found') :
    cached tools root a tag (located tools root project tag entry world files).final = some found ∧
      (located tools root project tag entry world files).final found.1 = files found.1 := by
  cases entry with
  | Path path => exact ⟨hcached, rfl⟩
  | Git git =>
    have hfinal : (located tools root project tag (.Git git) world files).final
        = (resolveGit tools world root git tag files).final := rfl
    rw [hfinal]
    by_cases hsame : prebuiltAt tools root git tag = prebuiltAt tools root a tag
    · obtain ⟨hremote, hrev⟩ := prebuiltAt_inj htag hsame
      rw [resolveGit_cached ((cached_congr hremote hrev).trans hcached)]
      exact ⟨hcached, rfl⟩
    · obtain ⟨_, hother⟩ := (resolveGit_settled htag (hgix git rfl) files files rfl).1 found'
        (withContext_eq_ok.mp h)
      have hprebuilt : (resolveGit tools world root git tag files).final (prebuiltAt tools root a tag)
          = files (prebuiltAt tools root a tag) := by
        have hpath : CacheEntry.path tools.gix root (.prebuilt a identity target)
            = prebuiltAt tools root a tag := by
          rw [htag]
          rfl
        have hkept := hother (.prebuilt a identity target)
        rw [hpath] at hkept
        refine hkept (fun heq => hsame heq.symm) ?_
        rw [htag]
        exact prebuiltAt_ne_checkoutAt
      have hcheckout : (resolveGit tools world root git tag files).final (checkoutAt tools root a)
          = files (checkoutAt tools root a) := by
        refine hother (.checkout a) ?_ ?_
        · rw [htag]
          exact prebuiltAt_ne_checkoutAt.symm
        · intro heq
          obtain ⟨hremote, hrev⟩ := checkoutAt_inj heq
          apply hsame
          rw [prebuiltAt, prebuiltAt, prebuiltDirectoryIn, prebuiltDirectoryIn, hremote, hrev]
      refine ⟨?_, ?_⟩
      · rw [cached] at hcached ⊢
        rw [hprebuilt, hcheckout]
        exact hcached
      · rcases cached_fst hcached with hfound | hfound
        · rw [hfound, hprebuilt]
        · rw [hfound, hcheckout]

/-- The entries after one that resolved to `directory`, up to one of the same remote and revision. -/
theorem refused_after (htag : tag = AbiTag.new identity target.text)
    (hremote : remoteDirectory tools.gix a = remoteDirectory tools.gix b) (hrev : a.rev = b.rev)
    (middle rest : List (LintSource × World))
    (hgix : ∀ other ∈ middle, ∀ git, other.1 = .Git git → other.2.Detaches tools git.rev)
    (hcached : cached tools root a tag files = some found)
    (hinspect : inspect tools os files entry found = .ok directory) (hseen : directory ∈ seen) :
    Refused tools os root project tag seen middle (.Git b) ((.Git b, world) :: rest) files := by
  induction middle generalizing seen files with
  | nil =>
    have hcourse : resolveGit tools world root b tag files
        = { value := .ok found, final := files, trail := [], log := [] } :=
      resolveGit_cached ((cached_congr hremote hrev).symm.trans hcached)
    have hlocated : (located tools root project tag (.Git b) world files).value = .ok found := by
      change withContext _ (resolveGit tools world root b tag files).value = .ok found
      rw [hcourse, withContext_ok]
    have hfinal : (located tools root project tag (.Git b) world files).final = files := by
      change (resolveGit tools world root b tag files).final = files
      rw [hcourse]
    have hchecked : (configuredSource tools os root project tag seen (.Git b) world files).value
        = .error (configuredTwice tools (.Git b) directory) := by
      rw [configuredSource, (Prog.bind_of_ok hlocated).1, hfinal]
      exact check_twice (inspect_congr hinspect rfl) hseen
    exact ⟨_, Prog.bind_of_error hchecked, fun resolved _ => ⟨directory, Or.inl hseen, rfl⟩⟩
  | cons other middle ih =>
    refine Refused.cons other fun resolved hresolved => ?_
    obtain ⟨found', hfound', hfinal, hcheck⟩ := configuredSource_eq_ok hresolved
    obtain ⟨hkept, hsame⟩ := located_keeps htag (hgix other List.mem_cons_self) hcached hfound'
    rw [hfinal]
    exact ih (fun later hlater => hgix later (List.mem_cons_of_mem _ hlater)) hkept
      (inspect_congr hinspect hsame) (List.mem_cons_of_mem _ hseen)

/-- Two entries of the same remote directory and revision. -/
theorem configuredSources_twice (htag : tag = AbiTag.new identity target.text)
    (hremote : remoteDirectory tools.gix a = remoteDirectory tools.gix b) (hrev : a.rev = b.rev)
    (before middle rest : List (LintSource × World)) {world' : World}
    (hgix : ∀ other ∈ before ++ (.Git a, world) :: middle, ∀ git, other.1 = .Git git →
      other.2.Detaches tools git.rev) :
    Refused tools os root project tag seen (before ++ (.Git a, world) :: middle) (.Git b)
      ((.Git b, world') :: rest) files := by
  induction before generalizing seen files with
  | nil =>
    refine Refused.cons (.Git a, world) fun resolved hresolved => ?_
    obtain ⟨found, hfound, hfinal, hcheck⟩ := configuredSource_eq_ok hresolved
    obtain ⟨hinspect, _⟩ := check_eq_ok hcheck
    have hsettled := (resolveGit_settled htag (hgix _ List.mem_cons_self a rfl) files files rfl).1
      found (withContext_eq_ok.mp hfound)
    rw [hfinal]
    exact refused_after htag hremote hrev middle rest
      (fun later hlater => hgix later (List.mem_cons_of_mem _ hlater)) hsettled.1 hinspect
      List.mem_cons_self
  | cons other before ih =>
    exact Refused.cons other fun resolved hresolved =>
      ih fun later hlater => hgix later (List.mem_cons_of_mem _ hlater)

end

end

/-! ## Remotes that differ in their user information -/

/-- Two sources have one place in every cache, and no configuration has both. -/
structure SharesCache (tools : Tools) (a b : GitLintSource) : Prop where
  checkout : ∀ root, checkoutDirectoryIn tools.gix root a = checkoutDirectoryIn tools.gix root b
  prebuilt : ∀ root tag,
    prebuiltDirectoryIn tools.gix root a tag = prebuiltDirectoryIn tools.gix root b tag
  refused : ∀ (os : Os) (root project : FilePath) (identity : AbiIdentity) (target : Target)
    (before middle rest : List (LintSource × World)) (world world' : World) (files : Files)
    (first second : GitLintSource), first = a ∧ second = b ∨ first = b ∧ second = a →
    (∀ other ∈ before ++ (.Git first, world) :: middle, ∀ git, other.1 = .Git git →
      other.2.Detaches tools git.rev) →
    Refused tools os root project (AbiTag.new identity target.text) []
      (before ++ (.Git first, world) :: middle) (.Git second) ((.Git second, world') :: rest) files

section

variable {tools : Tools} {a b : GitLintSource}

theorem sharesCache_of_remote (hremote : remoteDirectory tools.gix a = remoteDirectory tools.gix b)
    (hrev : a.rev = b.rev) : SharesCache tools a b where
  checkout root := by
    rw [checkoutDirectoryIn, checkoutDirectoryIn, hremote, hrev]
  prebuilt root tag := by
    rw [prebuiltDirectoryIn, prebuiltDirectoryIn, hremote, hrev]
  refused := by
    intro os root project identity target before middle rest world world' files first second
      hpair hgix
    rcases hpair with ⟨rfl, rfl⟩ | ⟨rfl, rfl⟩
    · exact configuredSources_twice rfl hremote hrev before middle rest hgix
    · exact configuredSources_twice rfl hremote.symm hrev.symm before middle rest hgix

/-- Two remotes that print the same, or whose texts have one digest. -/
theorem remoteDirectory_eq_iff (h : DifferInUserInfo a.url.url b.url.url) :
    remoteDirectory tools.gix a = remoteDirectory tools.gix b ↔
      digest (a.url.display tools.gix) = digest (b.url.display tools.gix) := by
  rw [remoteDirectory, remoteDirectory, h.slug_eq, String.append_right_inj]

/-- Two sources of one revision whose remotes differ in their user information only share the cache
    exactly if both remotes name a user or neither does. A remote that names one prints a mark for
    it, so besides that they share it only where the digest collides on the two texts. -/
theorem sharesCache_iff (tools : Tools) (a b : GitLintSource)
    (h : DifferInUserInfo a.url.url b.url.url) (hrev : a.rev = b.rev) :
    SharesCache tools a b ↔ a.url.url.user.isSome = b.url.url.user.isSome ∨
      a.url.display tools.gix ≠ b.url.display tools.gix ∧
        digest (a.url.display tools.gix) = digest (b.url.display tools.gix) := by
  constructor
  · intro hshares
    obtain ⟨hremote, _⟩ := checkoutAt_inj (hshares.checkout ⟨"/"⟩)
    have hdigest := (remoteDirectory_eq_iff h).mp hremote
    by_cases huser : a.url.url.user.isSome = b.url.url.user.isSome
    · exact Or.inl huser
    · refine Or.inr ⟨?_, hdigest⟩
      cases ha : a.url.url.user with
      | none =>
        cases hb : b.url.url.user with
        | none => exact absurd (by rw [ha, hb]) huser
        | some user => exact (display_added tools.gix h.symm (by rw [hb]; rfl) ha).symm
      | some user =>
        cases hb : b.url.url.user with
        | none => exact display_added tools.gix h (by rw [ha]; rfl) hb
        | some user' => exact absurd (by rw [ha, hb]; rfl) huser
  · intro hcondition
    refine sharesCache_of_remote ((remoteDirectory_eq_iff h).mpr ?_) hrev
    rcases hcondition with huser | ⟨_, hdigest⟩
    · rw [display_rotated tools.gix h huser]
    · exact hdigest

end

/-- The remote `https://<user>@example.com/rules`. -/
def exampleRules (user : Option String) : GitLintSource where
  url := {
    url := {
      scheme := .Https
      user
      password := none
      serializeAlternativeForm := false
      host := some "example.com"
      port := none
      path := "/rules" }
    userHasHost _ := rfl }
  rev := GitSource.pin

/-- A token that is rotated. -/
theorem sharesCache_tokens :
    SharesCache plainTools (exampleRules (some "a")) (exampleRules (some "b")) :=
  (sharesCache_iff plainTools (exampleRules (some "a")) (exampleRules (some "b"))
    ⟨rfl, rfl⟩ rfl).mpr (Or.inl rfl)

/-- A token that is added. -/
theorem not_sharesCache_token :
    ¬SharesCache plainTools (exampleRules (some "a")) (exampleRules none) := by
  intro h
  have hsame := h.checkout ⟨"/cache"⟩
  have hdistinct : checkoutDirectoryIn plainTools.gix ⟨"/cache"⟩ (exampleRules (some "a"))
      ≠ checkoutDirectoryIn plainTools.gix ⟨"/cache"⟩ (exampleRules none) := by
    decide +kernel
  exact hdistinct hsame

end Resolve

end Stiles
