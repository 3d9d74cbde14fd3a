import Stiles.CustomLints.ResolveCourse

/-
  Runs of `resolve_git` on one pin, one after the other.

  A `Run` is a stiles with its tag, what it meets outside the cache, and where it is cut off.

  * `Inv`: what stands in the cache is whole. Every run keeps it, cut off or not.
  * `cached_leaves`: what a run finds in the cache, every later one of its tag finds.
  * `resolveGit_runs`: what holds after every sequence of runs.
-/

namespace Stiles

namespace Resolve

open Crash (Prog Triple)
open Releases

/-! ## Runs, one after the other -/

/-- A stiles that resolves the pin. It is cut off after this many steps, or not at all. -/
structure Run where
  identity : AbiIdentity
  target : Target
  world : World
  cut : Option Nat

def Run.tag (run : Run) : AbiTag := AbiTag.new run.identity run.target.text

section

variable (tools : Tools) (root : FilePath) (source : GitLintSource) (tree : List DirEntry)

def Run.course (run : Run) : Fs Event (FilePath × Contents) :=
  resolveGit tools run.world root source run.tag

/-- The files after a run, cut off or not. -/
def Run.leaves (run : Run) (files : Files) : Files := (run.course tools root source).cut files run.cut

def emptyCache : Files := fun _ => none

def history (runs : List Run) : Files :=
  runs.foldl (fun files run => run.leaves tools root source files) emptyCache

/-- In this run git does what the code relies on it for, if it fetches the commit. -/
def Run.Documented (run : Run) : Prop :=
  ∀ prepared, run.world.git.prepared = .ok prepared →
    GitSource.Documented (gitSource tools prepared) source.rev tree

/-- A directory with every library of an archive that a release had for one of these runs. -/
def HoldsArchive (runs : List Run) (tag : AbiTag) (entries : List DirEntry) : Prop :=
  ∃ run ∈ runs, run.tag = tag ∧ ∃ archive, Published tools run.world source tag archive ∧
    Prebuilt.Whole tools.dllExtension (rootFiles archive) entries

/-- What stands in the cache is whole, whatever is in the staging directories. -/
structure Inv (runs : List Run) (files : Files) : Prop where
  libraries : ∀ (identity : AbiIdentity) (target : Target) directory,
    files (prebuiltAt tools root source (AbiTag.new identity target.text)) = some directory →
      Prebuilt.holdsLibraries tools.dllExtension directory.entries = true ∧
        HoldsArchive tools source runs (AbiTag.new identity target.text) directory.entries
  sources : ∀ directory, files (checkoutAt tools root source) = some directory →
    GitSource.Complete (gitSource tools []) source.rev tree directory.entries

end

variable {tools : Tools} {root : FilePath} {source : GitLintSource} {tree : List DirEntry}
  {runs : List Run} {run : Run} {files : Files}

/-- A run that finds nothing in a cache with nothing but whole directories: nothing is there. -/
theorem cached_none (hinv : Inv tools root source tree runs files)
    (h : cached tools root source run.tag files = none) :
    files (prebuiltAt tools root source run.tag) = none ∧
      files (checkoutAt tools root source) = none := by
  obtain ⟨hlibraries, hsources⟩ := cached_eq_none h
  constructor
  · cases hdirectory : files (prebuiltAt tools root source run.tag) with
    | none => rfl
    | some directory =>
      rw [hdirectory] at hlibraries
      have hholds := (hinv.libraries run.identity run.target directory hdirectory).1
      exact absurd hholds (Bool.eq_false_iff.mp hlibraries)
  · cases hdirectory : files (checkoutAt tools root source) with
    | none => rfl
    | some directory =>
      rw [hdirectory] at hsources
      have hholds := decide_eq_true (hinv.sources directory hdirectory).pinned
      exact absurd hholds (Bool.eq_false_iff.mp hsources)

theorem leaves_cached {pair : FilePath × Contents}
    (h : cached tools root source run.tag files = some pair) :
    run.leaves tools root source files = files := by
  have hspec : Triple (fun t => t = files) (run.course tools root source)
      (fun _ t => t = files) (fun t => t = files) := by
    intro t ht
    rw [ht, Run.course, resolveGit_cached h]
    exact ⟨rfl, fun t ht => absurd ht List.not_mem_nil⟩
  exact hspec.cut rfl rfl (fun _ _ h => h) run.cut

/-- The result of a run that finds nothing, and where it leaves the files. -/
theorem course_fresh (hlibraries : files (prebuiltAt tools root source run.tag) = none)
    (hsources : files (checkoutAt tools root source) = none) :
    Triple (fun t => t = files) (run.course tools root source)
      (fun r t => r = fresh tools run.world root source run.tag ∧
        Left tools run.world root source run.tag files r.toOption t)
      (fun t => ∃ pair, Left tools run.world root source run.tag files pair t) :=
  resolveGit_spec files hlibraries hsources
    (path_parent root (.prebuilt source run.identity run.target))
    (path_parent root (.checkout source))
    (staging_ne_path root (.prebuilt source run.identity run.target) (.checkout source) _).symm

theorem leaves_left (hlibraries : files (prebuiltAt tools root source run.tag) = none)
    (hsources : files (checkoutAt tools root source) = none) :
    ∃ pair, Left tools run.world root source run.tag files pair
      (run.leaves tools root source files) :=
  (course_fresh hlibraries hsources).cut rfl ⟨_, around_left (Fs.around_self files _)⟩
    (fun _ _ h => ⟨_, h.2⟩) run.cut

/-! ## What every run keeps -/

theorem prebuiltAt_ne_checkoutAt {other : GitLintSource} {identity : AbiIdentity}
    {target : Target} : prebuiltAt tools root source (AbiTag.new identity target.text)
      ≠ checkoutAt tools root other := by
  intro h
  have hsegments := segments_of_path (a := .prebuilt source identity target)
    (b := .checkout other) root h
  have hkinds : "prebuilt" = "git" := (List.cons.inj hsegments).1
  exact absurd hkinds (by decide)

/-- Each tag has a directory of its own. -/
theorem tag_of_prebuiltAt {identity identity' : AbiIdentity} {target target' : Target}
    (h : prebuiltAt tools root source (AbiTag.new identity target.text)
      = prebuiltAt tools root source (AbiTag.new identity' target'.text)) :
    AbiTag.new identity target.text = AbiTag.new identity' target'.text := by
  have hsegments := segments_of_path (a := .prebuilt source identity target)
    (b := .prebuilt source identity' target') root h
  have hprefix : CacheEntry.segments tools.gix (.prebuilt source identity target) <+:
      CacheEntry.segments tools.gix (.prebuilt source identity' target') := by
    rw [hsegments]
  obtain ⟨_, hlast⟩ := append_last_prefix hprefix
  exact congrArg AbiTag.mk hlast

theorem holdsArchive_mono {runs' : List Run} {tag : AbiTag} {entries : List DirEntry}
    (hsubset : runs ⊆ runs') (h : HoldsArchive tools source runs tag entries) :
    HoldsArchive tools source runs' tag entries := by
  obtain ⟨run, hrun, hrest⟩ := h
  exact ⟨run, hsubset hrun, hrest⟩

/-- A run keeps the cache whole, wherever it is cut off. -/
theorem inv_leaves (hinv : Inv tools root source tree runs files)
    (hgix : run.Documented tools source tree) :
    Inv tools root source tree (runs ++ [run]) (run.leaves tools root source files) := by
  have hsubset : runs ⊆ runs ++ [run] := List.subset_append_left _ _
  cases hcached : cached tools root source run.tag files with
  | some pair =>
    rw [leaves_cached hcached]
    refine ⟨fun identity target directory hdirectory => ?_, hinv.sources⟩
    obtain ⟨hlibraries, harchive⟩ := hinv.libraries identity target directory hdirectory
    exact ⟨hlibraries, holdsArchive_mono hsubset harchive⟩
  | none =>
    obtain ⟨hnolibraries, hnosources⟩ := cached_none hinv hcached
    obtain ⟨pair, hleft⟩ := leaves_left hnolibraries hnosources
    refine ⟨?_, ?_⟩
    · intro identity target directory hdirectory
      rcases left_entry hleft (.prebuilt source identity target) with
        hkept | ⟨owner, entries, hpath, hfetched, hnew⟩ | ⟨_, _, hpath, _⟩
      · have hbefore := hkept.symm.trans hdirectory
        obtain ⟨hlibraries, harchive⟩ := hinv.libraries identity target directory hbefore
        exact ⟨hlibraries, holdsArchive_mono hsubset harchive⟩
      · have htag : AbiTag.new identity target.text = run.tag := tag_of_prebuiltAt hpath
        have hentries : directory = ⟨owner, entries⟩ :=
          Option.some.inj (hdirectory.symm.trans hnew)
        obtain ⟨hlibraries, archive, hpublished, hwhole⟩ := fetchedEntries_eq_some hfetched
        rw [htag, hentries]
        exact ⟨hlibraries, run, List.mem_append_right _ List.mem_cons_self, rfl, archive,
          hpublished, hwhole⟩
      · exact absurd hpath prebuiltAt_ne_checkoutAt
    · intro directory hdirectory
      rcases left_entry hleft (.checkout source) with
        hkept | ⟨_, _, hpath, _⟩ | ⟨owner, prepared, _, hprepared, hnew⟩
      · exact hinv.sources directory (hkept.symm.trans hdirectory)
      · exact absurd hpath.symm prebuiltAt_ne_checkoutAt
      · obtain ⟨hfiles, hpinned⟩ :=
          GitSource.materialize_complete (hgix prepared hprepared) run.world.disk.pid
        have hentries : directory
            = ⟨owner, GitSource.detachHead prepared source.rev.text⟩ :=
          Option.some.inj (hdirectory.symm.trans hnew)
        rw [hentries]
        exact ⟨hfiles, hpinned⟩

/-- A run that finds nothing leaves every directory that is there as it is. -/
theorem left_kept {pair : Option (FilePath × Contents)} {t : Files} {directory : Directory}
    (entry : CacheEntry)
    (hlibraries : files (prebuiltAt tools root source run.tag) = none)
    (hsources : files (checkoutAt tools root source) = none)
    (hleft : Left tools run.world root source run.tag files pair t)
    (hthere : files (entry.path tools.gix root) = some directory) :
    t (entry.path tools.gix root) = some directory := by
  rcases left_entry hleft entry with hkept | ⟨_, _, hpath, _⟩ | ⟨_, _, hpath, _⟩
  · rw [hkept, hthere]
  · have hfree : files (entry.path tools.gix root) = none := hpath ▸ hlibraries
    rw [hfree] at hthere
    cases hthere
  · rw [hpath, hsources] at hthere
    cases hthere

/-- What a run finds in the cache, it still finds there after any other run. -/
theorem cached_leaves {other : Run} {pair : FilePath × Contents}
    (hinv : Inv tools root source tree runs files)
    (h : cached tools root source other.tag files = some pair) :
    cached tools root source other.tag (run.leaves tools root source files) = some pair := by
  cases hcached : cached tools root source run.tag files with
  | some pair' =>
    rw [leaves_cached hcached]
    exact h
  | none =>
    obtain ⟨hnolibraries, hnosources⟩ := cached_none hinv hcached
    obtain ⟨pair', hleft⟩ := leaves_left hnolibraries hnosources
    rw [cached, hnosources] at h
    cases hthere : files (prebuiltAt tools root source other.tag) with
    | none =>
      rw [hthere] at h
      cases h
    | some directory =>
      have hkept : run.leaves tools root source files (prebuiltAt tools root source other.tag)
          = some directory :=
        left_kept (.prebuilt source other.identity other.target) hnolibraries hnosources
          hleft hthere
      have hholds := (hinv.libraries other.identity other.target directory hthere).1
      have hlibraries : holdsLibraries tools (some directory) = true := hholds
      rw [hthere, if_pos hlibraries] at h
      rw [cached, hkept, if_pos hlibraries]
      exact h

/-- What a run installed, the next one finds. -/
theorem left_cached {found : Option (FilePath × Contents)} {t : Files}
    (hnolibraries : files (prebuiltAt tools root source run.tag) = none)
    (hgix : run.Documented tools source tree)
    (hleft : Left tools run.world root source run.tag files found t)
    (hfound : found.isSome = true) : cached tools root source run.tag t = found := by
  cases hleft with
  | abandoned directory directory' => cases hfound
  | libraries entries hfetched =>
    have hholds : holdsLibraries tools (some ⟨some run.world.disk.pid, entries⟩) = true :=
      (fetchedEntries_eq_some hfetched).1
    rw [cached, placed, Files.set_same, if_pos hholds]
  | sources directory prepared hprepared =>
    have hpinned := (GitSource.materialize_complete (hgix prepared hprepared) 0).pinned
    have hholds : holds tools source.rev (some ⟨some run.world.disk.pid,
        GitSource.detachHead prepared source.rev.text⟩) = true := decide_eq_true hpinned
    have hentry : prebuiltAt tools root source run.tag ≠ checkoutAt tools root source :=
      prebuiltAt_ne_checkoutAt
    have hstaging : prebuiltAt tools root source run.tag
        ≠ run.world.staging (prebuiltAt tools root source run.tag) :=
      (stagingDirectory_ne _ _).symm
    have hstaging' : prebuiltAt tools root source run.tag
        ≠ run.world.staging (checkoutAt tools root source) :=
      (staging_ne_path root (.checkout source) (.prebuilt source run.identity run.target) _).symm
    rw [cached, placed, Files.set_other _ _ hentry, Files.set_other _ _ hstaging',
      Files.set_other _ _ hstaging, hnolibraries, Files.set_same, if_pos hholds]
    rfl

/-- What a run returns from the cache is there, and a run that is not cut off leaves what it
    returns. -/
theorem cached_returned {pair : FilePath × Contents}
    (hinv : Inv tools root source tree runs files) (hgix : run.Documented tools source tree)
    (hdone : run.cut = none)
    (hreturned : (run.course tools root source files).value = .ok pair) :
    cached tools root source run.tag (run.leaves tools root source files) = some pair := by
  cases hcached : cached tools root source run.tag files with
  | some pair' =>
    rw [Run.course, resolveGit_cached hcached] at hreturned
    rw [leaves_cached hcached, hcached, Except.ok.inj hreturned]
  | none =>
    obtain ⟨hnolibraries, hnosources⟩ := cached_none hinv hcached
    have hend := (course_fresh hnolibraries hnosources files rfl).1.2
    rw [hreturned] at hend
    have hleaves : run.leaves tools root source files
        = (run.course tools root source files).final := by
      rw [Run.leaves, hdone]
      rfl
    rw [← hleaves] at hend
    exact left_cached hnolibraries hgix hend rfl

/-- What a run returns: what it finds in the cache, or what it would return with an empty one. -/
theorem course_value (hinv : Inv tools root source tree runs files) :
    (run.course tools root source files).value
      = match cached tools root source run.tag files with
        | some pair => .ok pair
        | none => fresh tools run.world root source run.tag := by
  cases hcached : cached tools root source run.tag files with
  | some pair => rw [Run.course, resolveGit_cached hcached]
  | none =>
    obtain ⟨hnolibraries, hnosources⟩ := cached_none hinv hcached
    exact (course_fresh hnolibraries hnosources files rfl).1.1

/-- Where no release ever had anything for the tag, a run that can fetch the commit returns the
    checkout. -/
theorem course_checkout {prepared : List DirEntry} (hinv : Inv tools root source tree runs files)
    (hprepared : run.world.git.prepared = .ok prepared)
    (hnone : ∀ other ∈ run :: runs, ∀ archive, ¬Published tools other.world source run.tag archive) :
    (run.course tools root source files).value
      = .ok (checkoutAt tools root source, .Sources .Locked) := by
  rw [course_value hinv]
  cases hcached : cached tools root source run.tag files with
  | some pair =>
    rw [cached] at hcached
    split at hcached
    · rename_i hholds
      obtain ⟨directory, hthere⟩ := Option.isSome_iff_exists.mp (isSome_of_any hholds)
      obtain ⟨_, other, hother, _, archive, hpublished, _⟩ :=
        hinv.libraries run.identity run.target directory hthere
      exact absurd hpublished (hnone other (List.mem_cons_of_mem _ hother) archive)
    · split at hcached
      · exact congrArg Except.ok (Option.some.inj hcached).symm
      · cases hcached
  | none =>
    rw [fresh]
    cases hfetched : fetchedEntries tools run.world source run.tag
        (prebuiltAt tools root source run.tag) with
    | some entries =>
      obtain ⟨_, archive, hpublished, _⟩ := fetchedEntries_eq_some hfetched
      exact absurd hpublished (hnone run List.mem_cons_self archive)
    | none =>
      rw [hprepared]
      rfl

/-! ## Every sequence of runs -/

theorem inv_emptyCache : Inv tools root source tree [] emptyCache where
  libraries := nofun
  sources := nofun

theorem inv_history (runs : List Run) (hgix : ∀ run ∈ runs, run.Documented tools source tree) :
    Inv tools root source tree runs (history tools root source runs) := by
  induction runs using List.reverseRecOn with
  | nil => exact inv_emptyCache
  | append_singleton runs run ih =>
    rw [history, List.foldl_append]
    refine inv_leaves (ih fun other hother => hgix other ?_) (hgix run ?_)
    · exact List.mem_append_left _ hother
    · exact List.mem_append_right _ List.mem_cons_self

/-- What a run finds in the cache, it finds there after any further runs. -/
theorem cached_history {before : List Run} {other : Run} {pair : FilePath × Contents}
    (after : List Run) (hgix : ∀ run ∈ before ++ after, run.Documented tools source tree)
    (h : cached tools root source other.tag (history tools root source before) = some pair) :
    cached tools root source other.tag (history tools root source (before ++ after)) = some pair := by
  induction after using List.reverseRecOn with
  | nil =>
    rw [List.append_nil]
    exact h
  | append_singleton after run ih =>
    rw [← List.append_assoc] at hgix ⊢
    have hbefore : ∀ run ∈ before ++ after, run.Documented tools source tree :=
      fun run hrun => hgix run (List.mem_append_left _ hrun)
    rw [history, List.foldl_append]
    exact cached_leaves (inv_history _ hbefore) (ih hbefore)

/-- After every sequence of runs, each cut off or not:

    * `prebuilt::cached` returns a directory only if it holds every library of a verified archive,
      which a release had for one of the runs and this tag.
    * `git_source::cached` returns a directory only if it is a complete checkout of the pin.
    * A run that fails could not fetch the commit, and would fail with an empty cache as well.
    * What a run has returned, every later one of its tag returns, without a request or a step. -/
theorem resolveGit_runs (tools : Tools) (root : FilePath) (source : GitLintSource)
    (tree : List DirEntry) (runs : List Run)
    (hgix : ∀ run ∈ runs, run.Documented tools source tree) :
    (∀ (identity : AbiIdentity) (target : Target) path,
      cachedLibraries tools (prebuiltAt tools root source (AbiTag.new identity target.text))
          (history tools root source runs) = some path →
        ∃ directory, history tools root source runs path = some directory ∧
          HoldsArchive tools source runs (AbiTag.new identity target.text) directory.entries) ∧
    (∀ path, cachedCheckout tools source (checkoutAt tools root source)
          (history tools root source runs) = some path →
        ∃ directory, history tools root source runs path = some directory ∧
          GitSource.Complete (gitSource tools []) source.rev tree directory.entries) ∧
    (∀ (run : Run) (e : Anyhow),
      (run.course tools root source (history tools root source runs)).value = .error e →
        (∃ e', run.world.git.prepared = .error e') ∧
          (run.course tools root source emptyCache).value = .error e) ∧
    ∀ (before after : List Run) (run : Run) (pair : FilePath × Contents),
      runs = before ++ run :: after → run.cut = none →
      (run.course tools root source (history tools root source before)).value = .ok pair →
      ∀ later : Run, later.tag = run.tag →
        later.course tools root source (history tools root source runs)
          = { value := .ok pair, final := history tools root source runs, trail := [], log := [] } := by
  have hinv : Inv tools root source tree runs (history tools root source runs) :=
    inv_history runs hgix
  refine ⟨?_, ?_, ?_, ?_⟩
  · intro identity target path hpath
    rw [cachedLibraries] at hpath
    split at hpath
    · rename_i hlibraries
      obtain ⟨directory, hthere⟩ := Option.isSome_iff_exists.mp (isSome_of_any hlibraries)
      rw [← Option.some.inj hpath]
      exact ⟨directory, hthere, (hinv.libraries identity target directory hthere).2⟩
    · cases hpath
  · intro path hpath
    rw [cachedCheckout] at hpath
    split at hpath
    · rename_i hholds
      obtain ⟨directory, hthere⟩ := Option.isSome_iff_exists.mp (isSome_of_any hholds)
      rw [← Option.some.inj hpath]
      exact ⟨directory, hthere, hinv.sources directory hthere⟩
    · cases hpath
  · intro run e he
    have hempty : Inv tools root source tree [] emptyCache := inv_emptyCache
    rw [course_value hinv] at he
    split at he
    · cases he
    · exact ⟨fresh_error he, (course_value hempty).trans he⟩
  · intro before after run pair hruns hdone hreturned later htag
    have hsplit : runs = (before ++ [run]) ++ after := by
      rw [hruns, List.append_assoc]
      rfl
    rw [hsplit] at hgix ⊢
    have hbefore : ∀ other ∈ before, other.Documented tools source tree := fun other hother =>
      hgix other (List.mem_append_left _ (List.mem_append_left _ hother))
    have hrun : run.Documented tools source tree :=
      hgix run (List.mem_append_left _ (List.mem_append_right _ List.mem_cons_self))
    have hleft := cached_returned (inv_history before hbefore) hrun hdone hreturned
    have hdone : cached tools root source run.tag (history tools root source (before ++ [run]))
        = some pair := by
      rw [history, List.foldl_append]
      exact hleft
    have hlater := cached_history after hgix hdone
    rw [Run.course]
    rw [← htag] at hlater
    exact resolveGit_cached hlater

/-- A machine whose rules are at a remote with no releases. -/
def plainTools : Tools where
  gix := plainGitoxide
  headId := GitSource.plainGix.headId
  http := plainHttp
  codecs := {
    untar := fun _ => .error (.msg "invalid gzip header")
    sha256 := fun _ => ⟨Vector.replicate 32 0⟩
    decodeHex := fun _ => .error (.msg "invalid character") }
  dllExtension := "so"
  dllExtension_ne := by decide

/-- Fetches the pin file by file. The releases are not listed. -/
def plainWorld (pid : Nat) : World where
  disk := {
    pid
    order := id
    order_perm := fun _ => List.Perm.refl _
    partials := fun _ => [] }
  env := { apiUrl := none, ghToken := none, githubToken := none }
  network _ := .ok { status := 404, statusText := "404 Not Found", body := ByteArray.empty }
  git := { partials := [GitSource.oneFile], prepared := .ok (GitSource.plainGix.prepared 0) }

def plainRun (pid : Nat) (cut : Option Nat) : Run where
  identity := ⟨⟨1, 4⟩, 0xaa, 0xbb⟩
  target := ⟨"x86_64-unknown-linux-gnu", by decide, by decide⟩
  world := plainWorld pid
  cut

def pinnedRules : GitLintSource := ⟨teamRules "github.com", GitSource.pin⟩

/-- Two processes are cut off in a fetch, the second one with the id of the first. A third one
    checks the source out. -/
def retries : List Run := [plainRun 7 (some 2), plainRun 7 (some 4), plainRun 8 none]

theorem retries_documented :
    ∀ run ∈ retries, run.Documented plainTools pinnedRules GitSource.oneFile := by
  intro run hrun prepared hprepared
  have hworld : run.world.git.prepared = .ok (GitSource.plainGix.prepared 0) := by
    simp only [retries, List.mem_cons, List.not_mem_nil, or_false] at hrun
    rcases hrun with rfl | rfl | rfl <;> rfl
  rw [← Except.ok.inj (hworld.symm.trans hprepared)]
  exact GitSource.plainGix_documented

theorem plainWorld_unpublished {pid : Nat} {source : GitLintSource} {tag : AbiTag}
    {archive : List TarEntry} : ¬Published plainTools (plainWorld pid) source tag archive := by
  intro h
  obtain ⟨_, _, _, hfound, _⟩ := h
  cases hfound

theorem resolveGit_retries :
    ((plainRun 8 none).course plainTools ⟨"/cache"⟩ pinnedRules
      (history plainTools ⟨"/cache"⟩ pinnedRules [plainRun 7 (some 2), plainRun 7 (some 4)])).value
      = .ok (checkoutAt plainTools ⟨"/cache"⟩ pinnedRules, .Sources .Locked) ∧
    ∀ later : Run, later.tag = (plainRun 8 none).tag →
      (later.course plainTools ⟨"/cache"⟩ pinnedRules
        (history plainTools ⟨"/cache"⟩ pinnedRules retries)).log.length = 0 := by
  have hreturned : ((plainRun 8 none).course plainTools ⟨"/cache"⟩ pinnedRules
      (history plainTools ⟨"/cache"⟩ pinnedRules
        [plainRun 7 (some 2), plainRun 7 (some 4)])).value
      = .ok (checkoutAt plainTools ⟨"/cache"⟩ pinnedRules, .Sources .Locked) := by
    have hcut : [plainRun 7 (some 2), plainRun 7 (some 4)] ⊆ retries :=
      List.subset_append_left _ [plainRun 8 none]
    refine course_checkout (inv_history _ fun run hrun => retries_documented run (hcut hrun)) rfl
      fun other hother archive => ?_
    simp only [List.mem_cons, List.not_mem_nil, or_false] at hother
    rcases hother with rfl | rfl | rfl
    · exact plainWorld_unpublished
    · exact plainWorld_unpublished
    · exact plainWorld_unpublished
  refine ⟨hreturned, fun later htag => ?_⟩
  obtain ⟨_, _, _, hlater⟩ := resolveGit_runs plainTools ⟨"/cache"⟩ pinnedRules
    GitSource.oneFile retries retries_documented
  rw [hlater _ [] (plainRun 8 none) _ rfl rfl hreturned later htag]
  rfl

end Resolve

end Stiles
