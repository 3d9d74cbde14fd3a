import Stiles.CustomLints.ResolveSteps

/-
  One run of `resolve_git`, whatever its world, cut off after any of its steps.

  `cached` is what it finds in the cache. A run that finds something takes no step at all
  (`resolveGit_cached`). For one that finds nothing, `Left` is where it can leave the files, and
  `fresh` its result (`resolveGit_spec`).
-/

namespace Stiles

namespace Resolve

open Crash (Prog Triple)
open Fs (Around)
open Releases

/-! ## What a run finds, and what it leaves -/

section

variable (tools : Tools) (world : World) (root : FilePath) (source : GitLintSource) (tag : AbiTag)

abbrev prebuiltAt : FilePath := prebuiltDirectoryIn tools.gix root source tag

abbrev checkoutAt : FilePath := checkoutDirectoryIn tools.gix root source

abbrev World.staging (path : FilePath) : FilePath := stagingDirectory path world.disk.pid

/-- What `resolve_git` finds in the cache. -/
def cached (files : Files) : Option (FilePath × Contents) :=
  if holdsLibraries tools (files (prebuiltAt tools root source tag)) then
    some (prebuiltAt tools root source tag, .Libraries)
  else if holds tools source.rev (files (checkoutAt tools root source)) then
    some (checkoutAt tools root source, .Sources .Locked)
  else none

/-- Where a run can leave the files that finds nothing in the cache, and what it then put there. -/
inductive Left (files : Files) : Option (FilePath × Contents) → Files → Prop
  | abandoned (directory directory' : Option Directory) :
    Left files none ((files.set (world.staging (prebuiltAt tools root source tag)) directory).set
      (world.staging (checkoutAt tools root source)) directory')
  | libraries (entries : List DirEntry)
    (fetched : fetchedEntries tools world source tag (prebuiltAt tools root source tag)
      = some entries) :
    Left files (some (prebuiltAt tools root source tag, .Libraries))
      (placed files (world.staging (prebuiltAt tools root source tag))
        (prebuiltAt tools root source tag) world.disk.pid entries)
  | sources (directory : Option Directory) (prepared : List DirEntry)
    (fetched : world.git.prepared = .ok prepared) :
    Left files (some (checkoutAt tools root source, .Sources .Locked))
      (placed (files.set (world.staging (prebuiltAt tools root source tag)) directory)
        (world.staging (checkoutAt tools root source)) (checkoutAt tools root source)
        world.disk.pid (GitSource.detachHead prepared source.rev.text))

/-- The result of a run that finds nothing in the cache. -/
def fresh : AnyhowResult (FilePath × Contents) :=
  match fetchedEntries tools world source tag (prebuiltAt tools root source tag) with
  | some _ => .ok (prebuiltAt tools root source tag, .Libraries)
  | none =>
    withContext "failed to check out the lint source"
      (withContext ("failed to check out " ++ source.rev.text ++ " from " ++
          source.url.display tools.gix)
        (world.git.prepared.map fun _ => (checkoutAt tools root source, .Sources .Locked)))

end

section

variable {tools : Tools} {world : World} {root : FilePath} {source : GitLintSource} {tag : AbiTag}
  {files : Files}

theorem isSome_of_any {α : Type} {o : Option α} {p : α → Bool} (h : o.any p = true) :
    o.isSome = true := by
  cases o with
  | none => cases h
  | some a => rfl

/-- A run that finds nothing fails only if the commit cannot be fetched. -/
theorem fresh_error {e : Anyhow} (h : fresh tools world root source tag = .error e) :
    ∃ e', world.git.prepared = .error e' := by
  rw [fresh] at h
  split at h
  · cases h
  · cases hprepared : world.git.prepared with
    | error e' => exact ⟨e', rfl⟩
    | ok prepared =>
      rw [hprepared] at h
      cases h

/-- A run that finds something in the cache takes no step and asks nobody. -/
theorem resolveGit_cached {pair : FilePath × Contents}
    (h : cached tools root source tag files = some pair) :
    resolveGit tools world root source tag files
      = { value := .ok pair, final := files, trail := [], log := [] } := by
  rw [cached] at h
  rw [resolveGit, Prog.read_bind, cachedLibraries]
  split at h
  · rename_i hlibraries
    rw [if_pos hlibraries, ← Option.some.inj h]
    rfl
  · rename_i hlibraries
    rw [if_neg hlibraries]
    split at h
    · rename_i hsources
      change (Prog.read (cachedCheckout tools source _) >>= _) files = _
      rw [Prog.read_bind, cachedCheckout, if_pos hsources, ← Option.some.inj h]
      rfl
    · cases h

theorem cached_eq_none (h : cached tools root source tag files = none) :
    holdsLibraries tools (files (prebuiltAt tools root source tag)) = false ∧
      holds tools source.rev (files (checkoutAt tools root source)) = false := by
  rw [cached] at h
  split at h
  · cases h
  · rename_i hlibraries
    split at h
    · cases h
    · rename_i hsources
      exact ⟨Bool.eq_false_iff.mpr hlibraries, Bool.eq_false_iff.mpr hsources⟩

/-- Where nothing was in the way. -/
theorem around_of_ends {path : FilePath} {t : Files} (h : t = files ∨ Around files path t) :
    Around files path t := by
  rcases h with rfl | haround
  · exact Fs.around_self t path
  · exact haround

theorem around_left {t : Files}
    (h : Around files (world.staging (prebuiltAt tools root source tag)) t) :
    Left tools world root source tag files none t := by
  obtain ⟨directory, rfl⟩ := h
  rw [← Files.set_self (files.set _ directory) (world.staging (checkoutAt tools root source))]
  exact .abandoned directory _

/-- The part of a run after the releases had nothing for it. -/
theorem checkout_left {base : Files} (directory : Option Directory)
    (hbase : base = files.set (world.staging (prebuiltAt tools root source tag)) directory)
    (hfree : base (checkoutAt tools root source) = none)
    (hparent : (checkoutAt tools root source).parent.isSome = true)
    (hnothing : fetchedEntries tools world source tag (prebuiltAt tools root source tag) = none) :
    Triple (fun t => t = base)
      (do
        let destination ← Fs.context "failed to check out the lint source"
          (checkout tools world source (checkoutAt tools root source))
        return (destination, .Sources .Locked))
      (fun r t => r = fresh tools world root source tag ∧
        Left tools world root source tag files r.toOption t)
      (fun t => ∃ pair, Left tools world root source tag files pair t) := by
  have hheld : holds tools source.rev (base (checkoutAt tools root source)) = false := by
    rw [hfree]
    rfl
  have hself : base = base.set (checkoutAt tools root source) none := by
    rw [← hfree, Files.set_self]
  cases hprepared : world.git.prepared with
  | error e =>
    have hspec : Triple (fun t => t = base)
        (checkout tools world source (checkoutAt tools root source)) _ _ :=
      checkout_fails base source _ hheld hself hparent hprepared
    have hcut : ∀ t, Cut base base (world.staging (checkoutAt tools root source))
        (checkoutAt tools root source) world.disk.pid none t →
        ∃ pair, Left tools world root source tag files pair t := by
      intro t ht
      rcases ht with ⟨hthere, _⟩ | ⟨directory', hdirectory'⟩ | ⟨_, hnone, _⟩
      · exact absurd hfree hthere
      · rw [hdirectory', hbase]
        exact ⟨_, .abandoned directory directory'⟩
      · cases hnone
    refine Triple.bind_error (Fs.context_error (hspec.mono_cut hcut)) fun t ht => ?_
    obtain ⟨directory', hdirectory'⟩ := around_of_ends ht
    rw [hdirectory', hbase, fresh, hnothing, hprepared]
    exact ⟨rfl, .abandoned directory directory'⟩
  | ok prepared =>
    have hspec : Triple (fun t => t = base)
        (checkout tools world source (checkoutAt tools root source)) _ _ :=
      checkout_places base source _ hheld hself hparent hprepared
    have hcut : ∀ t, Cut base base (world.staging (checkoutAt tools root source))
        (checkoutAt tools root source) world.disk.pid
        (some (GitSource.detachHead prepared source.rev.text)) t →
        ∃ pair, Left tools world root source tag files pair t := by
      intro t ht
      rcases ht with ⟨hthere, _⟩ | ⟨directory', hdirectory'⟩ | ⟨entries, hentries, hplaced⟩
      · exact absurd hfree hthere
      · rw [hdirectory', hbase]
        exact ⟨_, .abandoned directory directory'⟩
      · rw [hplaced, hbase, ← Option.some.inj hentries]
        exact ⟨_, .sources directory prepared hprepared⟩
    refine Triple.bind_ok (Fs.context_ok (hspec.mono_cut hcut)) (Triple.pure fun t ht => ?_)
    rw [ht, hbase, fresh, hnothing, hprepared]
    exact ⟨rfl, .sources directory prepared hprepared⟩

/-- A run that finds nothing: its result depends on what it meets outside the cache only, and what
    it returns then stands in the cache. -/
theorem resolveGit_spec (files : Files)
    (hlibraries : files (prebuiltAt tools root source tag) = none)
    (hsources : files (checkoutAt tools root source) = none)
    (hparent : (prebuiltAt tools root source tag).parent.isSome = true)
    (hparent' : (checkoutAt tools root source).parent.isSome = true)
    (hne : checkoutAt tools root source ≠ world.staging (prebuiltAt tools root source tag)) :
    Triple (fun t => t = files) (resolveGit tools world root source tag)
      (fun r t => r = fresh tools world root source tag ∧
        Left tools world root source tag files r.toOption t)
      (fun t => ∃ pair, Left tools world root source tag files pair t) := by
  have hcut : ∀ t, Cut files files (world.staging (prebuiltAt tools root source tag))
      (prebuiltAt tools root source tag) world.disk.pid
      (fetchedEntries tools world source tag (prebuiltAt tools root source tag)) t →
      ∃ pair, Left tools world root source tag files pair t := by
    intro t ht
    rcases ht with ⟨hthere, _⟩ | haround | ⟨entries, hentries, rfl⟩
    · exact absurd hlibraries hthere
    · exact ⟨_, around_left haround⟩
    · exact ⟨_, .libraries entries hentries⟩
  have hspec : Triple (fun t => t = files)
      (fetch tools world source tag (prebuiltAt tools root source tag)) _ _ :=
    fetch_spec files source tag _ (hlibraries ▸ Files.set_self files _).symm hparent rfl rfl
  have hfetch := hspec.mono_cut hcut
  refine Triple.read_bind_eq (a := none) ?_ (Triple.read_bind_eq (a := none) ?_ ?_)
  · intro t ht
    rw [ht, cachedLibraries, hlibraries]
    rfl
  · intro t ht
    rw [ht, cachedCheckout, hsources]
    rfl
  · cases hresult : fetchedEntries tools world source tag (prebuiltAt tools root source tag) with
    | some entries =>
      rw [hresult] at hfetch
      refine Triple.bind_ok (Fs.context_ok hfetch) (Triple.pure fun t ht => ?_)
      rw [ht, fresh, hresult]
      exact ⟨rfl, .libraries entries hresult⟩
    | none =>
      rw [hresult] at hfetch
      refine Triple.bind_ok (Fs.context_ok hfetch) ?_
      intro t ht
      obtain ⟨directory, hdirectory⟩ := around_of_ends ht
      have hfree : t (checkoutAt tools root source) = none := by
        rw [hdirectory, Files.set_other _ _ hne, hsources]
      exact checkout_left directory hdirectory hfree hparent' hresult t rfl

/-! ## What a run changes in the cache -/

/-- What is in the cache before a run stays, and the run adds at most what it fetched. -/
theorem left_entry {identity : AbiIdentity} {target : Target} {pair : Option (FilePath × Contents)}
    {t : Files}
    (h : Left tools world root source (AbiTag.new identity target.text) files pair t)
    (entry : CacheEntry) :
    t (entry.path tools.gix root) = files (entry.path tools.gix root) ∨
    (∃ owner entries,
      entry.path tools.gix root = prebuiltAt tools root source (AbiTag.new identity target.text) ∧
      fetchedEntries tools world source (AbiTag.new identity target.text)
        (entry.path tools.gix root) = some entries ∧
      t (entry.path tools.gix root) = some ⟨owner, entries⟩) ∨
    ∃ owner prepared, entry.path tools.gix root = checkoutAt tools root source ∧
      world.git.prepared = .ok prepared ∧
      t (entry.path tools.gix root)
        = some ⟨owner, GitSource.detachHead prepared source.rev.text⟩ := by
  have hprebuilt : entry.path tools.gix root
      ≠ world.staging (prebuiltAt tools root source (AbiTag.new identity target.text)) :=
    (staging_ne_path root (.prebuilt source identity target) entry _).symm
  have hcheckout : entry.path tools.gix root ≠ world.staging (checkoutAt tools root source) :=
    (staging_ne_path root (.checkout source) entry _).symm
  cases h with
  | abandoned directory directory' =>
    rw [Files.set_other _ _ hcheckout, Files.set_other _ _ hprebuilt]
    exact Or.inl rfl
  | libraries entries hfetched =>
    by_cases hpath : entry.path tools.gix root
        = prebuiltAt tools root source (AbiTag.new identity target.text)
    · rw [hpath, placed, Files.set_same]
      exact Or.inr (Or.inl ⟨_, entries, rfl, hfetched, rfl⟩)
    · rw [placed, Files.set_other _ _ hpath, Files.set_other _ _ hprebuilt]
      exact Or.inl rfl
  | sources directory prepared hfetched =>
    by_cases hpath : entry.path tools.gix root = checkoutAt tools root source
    · rw [hpath, placed, Files.set_same]
      exact Or.inr (Or.inr ⟨_, prepared, rfl, hfetched, rfl⟩)
    · rw [placed, Files.set_other _ _ hpath, Files.set_other _ _ hcheckout,
        Files.set_other _ _ hprebuilt]
      exact Or.inl rfl

end

end Resolve

end Stiles
