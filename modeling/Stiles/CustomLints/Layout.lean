import Stiles.Config.GitUrl
import Stiles.CustomLints.Cache
import Stiles.CustomLints.Handshake
import Stiles.Types.PathComponents

/-
  The layout of the cache (`cache.rs`).

  A checkout stands at `git/<remote>/<rev>` under the cache root and a set of prebuilt libraries at
  `prebuilt/<remote>/<rev>/<tag>`. `CacheEntry` is one of either, and `CacheEntry.segments` its names
  below the root. Each is assembled in a staging directory beside it.

  * `path_components`, `staging_components`: where an entry and its staging directory stand.
  * `segments_incomparable`: no entry stands inside another one.
  * `cache_layout`: the whole layout, for every cache root.
-/

namespace Stiles

/-- A target triple: the name of one component that does not end like a staging directory. -/
structure Target where
  text : String
  plain : isPlain text = true
  noPartial : ¬".partial".toList <:+ text.toList

variable (gix : Gix)

def remoteDirectory (source : GitLintSource) : String :=
  source.url.slug ++ "-" ++ digest (source.url.display gix)

def checkoutDirectoryIn (root : FilePath) (source : GitLintSource) : FilePath :=
  ((root.join ⟨"git"⟩).join ⟨remoteDirectory gix source⟩).join ⟨source.rev.text⟩

def prebuiltDirectoryIn (root : FilePath) (source : GitLintSource) (tag : AbiTag) : FilePath :=
  (((root.join ⟨"prebuilt"⟩).join ⟨remoteDirectory gix source⟩).join ⟨source.rev.text⟩).join
    ⟨tag.text⟩

/-- What stands in the cache: the checkout of a source, or its libraries for a stiles. -/
inductive CacheEntry where
  | checkout (source : GitLintSource)
  | prebuilt (source : GitLintSource) (identity : AbiIdentity) (target : Target)

namespace CacheEntry

def path (root : FilePath) : CacheEntry → FilePath
  | .checkout source => checkoutDirectoryIn gix root source
  | .prebuilt source identity target =>
    prebuiltDirectoryIn gix root source (AbiTag.new identity target.text)

/-- The kind, the remote and, for libraries, the revision. -/
def upper : CacheEntry → List String
  | .checkout source => ["git", remoteDirectory gix source]
  | .prebuilt source _ _ => ["prebuilt", remoteDirectory gix source, source.rev.text]

/-- The last name: the revision or the tag. -/
def last : CacheEntry → String
  | .checkout source => source.rev.text
  | .prebuilt _ identity target => (AbiTag.new identity target.text).text

def segments (entry : CacheEntry) : List String :=
  entry.upper gix ++ [entry.last]

end CacheEntry

/-- What the name of a staging directory adds to that of its destination. -/
def partialSuffix (pid : Nat) : String :=
  "." ++ pid.repr ++ ".partial"

/-! ## The names -/

theorem isPlain_of_hyphen {name : String} (hslash : '/' ∉ name.toList) (h : '-' ∈ name.toList) :
    isPlain name = true := by
  rw [isPlain_iff]
  refine ⟨?_, hslash, ?_, ?_⟩
  · intro hnil
    rw [hnil] at h
    exact absurd h List.not_mem_nil
  · intro hdot
    rw [hdot] at h
    exact absurd h (by decide)
  · intro hdots
    rw [hdots] at h
    exact absurd h (by decide)

theorem slash_not_mem_digest (text : String) : '/' ∉ (digest text).toList := fun h =>
  absurd (digest_isHexDigit text _ h) (by decide)

theorem isPlain_remoteDirectory (source : GitLintSource) :
    isPlain (remoteDirectory gix source) = true := by
  have hslug : '/' ∉ source.url.slug.toList := by
    intro h
    rcases (slug_shape source.url).2.1 _ h with halpha | hdash
    · exact absurd halpha (by decide)
    · exact absurd hdash (by decide)
  apply isPlain_of_hyphen
  · have hdash : '/' ∉ ("-").toList := by decide
    rw [remoteDirectory, String.toList_append, String.toList_append, List.mem_append,
      List.mem_append, not_or, not_or]
    exact ⟨⟨hslug, hdash⟩, slash_not_mem_digest _⟩
  · simp [remoteDirectory]

theorem rev_isHexDigit (rev : GitRev) : ∀ c ∈ rev.text.toList, Text.isHexDigit c = true := by
  have haccepted := rev.accepted
  rw [isHash, Bool.and_eq_true] at haccepted
  exact List.all_eq_true.mp haccepted.2

theorem isPlain_rev (rev : GitRev) : isPlain rev.text = true := by
  have hhex := rev_isHexDigit rev
  have haccepted := rev.accepted
  rw [isHash, Bool.and_eq_true] at haccepted
  rw [isPlain_iff]
  refine ⟨?_, fun h => absurd (hhex _ h) (by decide), ?_, ?_⟩
  · intro hnil
    have hempty : rev.text = "" := String.toList_injective hnil
    rw [hempty] at haccepted
    exact absurd haccepted.1 (by decide)
  · intro hdot
    exact absurd (hhex '.' (hdot ▸ List.mem_cons_self)) (by decide)
  · intro hdots
    exact absurd (hhex '.' (hdots ▸ List.mem_cons_self)) (by decide)

theorem isPlain_tag (identity : AbiIdentity) (target : Target) :
    isPlain (AbiTag.new identity target.text).text = true := by
  obtain ⟨_, htarget, _⟩ := isPlain_iff.mp target.plain
  apply isPlain_of_hyphen
  · have hdash : '/' ∉ ("-").toList := by decide
    rw [AbiTag.new, String.toList_append, String.toList_append, List.mem_append, List.mem_append,
      not_or, not_or]
    exact ⟨⟨slash_not_mem_digest _, hdash⟩, htarget⟩
  · simp [AbiTag.new]

/-- A tag does not end like a staging directory, because its target does not. -/
theorem tag_noPartial (identity : AbiIdentity) (target : Target) :
    ¬".partial".toList <:+ (AbiTag.new identity target.text).text.toList := by
  intro h
  have htag : (AbiTag.new identity target.text).text.toList
      = (digest identity.key).toList ++ '-' :: target.text.toList := by
    simp [AbiTag.new]
  rw [htag] at h
  have hown : '-' :: target.text.toList <:+ (digest identity.key).toList ++ '-' ::
      target.text.toList := List.suffix_append _ _
  rcases List.suffix_or_suffix_of_suffix h hown with hshort | hlong
  · rcases List.suffix_cons_iff.mp hshort with heq | htarget
    · have hdot : '.' = '-' := (List.cons.inj heq).1
      exact absurd hdot (by decide)
    · exact target.noPartial htarget
  · have hdash : '-' ∈ ".partial".toList := hlong.subset List.mem_cons_self
    exact absurd hdash (by decide)

theorem last_plain (entry : CacheEntry) : isPlain entry.last = true := by
  cases entry with
  | checkout source => exact isPlain_rev source.rev
  | prebuilt _ identity target => exact isPlain_tag identity target

theorem isPlain_staged {name : String} (h : isPlain name = true) (pid : Nat) :
    isPlain (name ++ partialSuffix pid) = true := by
  obtain ⟨hempty, hslash, _⟩ := isPlain_iff.mp h
  have hsuffix : '/' ∉ (partialSuffix pid).toList := by
    have hdot : '/' ∉ (".").toList := by decide
    have htail : '/' ∉ (".partial").toList := by decide
    rw [partialSuffix, Text.not_mem_append, Text.not_mem_append]
    exact ⟨⟨hdot, Text.not_mem_repr pid (by decide)⟩, htail⟩
  have hlength : 8 ≤ (name ++ partialSuffix pid).toList.length := by
    have htail : (".partial").toList.length = 8 := by decide
    rw [partialSuffix, String.toList_append, String.toList_append, String.toList_append,
      List.length_append, List.length_append, List.length_append, htail]
    omega
  rw [isPlain_iff]
  refine ⟨?_, ?_, ?_, ?_⟩
  · intro hnil
    rw [hnil] at hlength
    exact absurd hlength (by decide)
  · exact Text.not_mem_append.mpr ⟨hslash, hsuffix⟩
  · intro hdot
    rw [hdot] at hlength
    exact absurd hlength (by decide)
  · intro hdots
    rw [hdots] at hlength
    exact absurd hlength (by decide)

/-! ## Where the directories stand -/

/-- The components below `root` with these names. -/
def below (root : FilePath) (names : List String) : List Component :=
  root.components ++ names.map fun name => .Normal name.toList

theorem below_prefix {root : FilePath} {names names' : List String} :
    below root names <+: below root names' ↔ names <+: names' := by
  have hinjective : Function.Injective fun name : String => Component.Normal name.toList :=
    fun _ _ h => String.toList_injective (Component.Normal.inj h)
  rw [below, below, List.prefix_append_right_inj]
  exact List.prefix_map_iff_of_injective hinjective

theorem below_inj {root : FilePath} {names names' : List String} :
    below root names = below root names' ↔ names = names' := by
  have hinjective : Function.Injective fun name : String => Component.Normal name.toList :=
    fun _ _ h => String.toList_injective (Component.Normal.inj h)
  rw [below, below, List.append_right_inj, (List.map_injective_iff.mpr hinjective).eq_iff]

/-- The directory that holds an entry, and the entry in it. -/
theorem exists_holder (root : FilePath) (entry : CacheEntry) : ∃ holder : FilePath,
    holder.components = below root (entry.upper gix) ∧
      entry.path gix root = holder.join ⟨entry.last⟩ := by
  have hgit : isPlain "git" = true := by decide
  have hprebuilt : isPlain "prebuilt" = true := by decide
  cases entry with
  | checkout source =>
    refine ⟨(root.join ⟨"git"⟩).join ⟨remoteDirectory gix source⟩, ?_, rfl⟩
    rw [FilePath.components_join _ (isPlain_remoteDirectory gix source),
      FilePath.components_join _ hgit, List.append_assoc]
    rfl
  | prebuilt source identity target =>
    refine ⟨((root.join ⟨"prebuilt"⟩).join ⟨remoteDirectory gix source⟩).join ⟨source.rev.text⟩,
      ?_, rfl⟩
    rw [FilePath.components_join _ (isPlain_rev source.rev),
      FilePath.components_join _ (isPlain_remoteDirectory gix source),
      FilePath.components_join _ hprebuilt, List.append_assoc, List.append_assoc]
    rfl

theorem path_components (root : FilePath) (entry : CacheEntry) :
    (entry.path gix root).components = below root (entry.segments gix) := by
  obtain ⟨holder, hholder, hpath⟩ := exists_holder gix root entry
  rw [hpath, FilePath.components_join _ (last_plain entry), hholder, below, below,
    CacheEntry.segments, List.map_append, List.append_assoc]
  rfl

/-- The names of the staging directory of an entry. -/
def CacheEntry.staged (entry : CacheEntry) (pid : Nat) : List String :=
  entry.upper gix ++ [entry.last ++ partialSuffix pid]

theorem stagingDirectory_join (holder : FilePath) {name : String} (h : isPlain name = true)
    (pid : Nat) :
    stagingDirectory (holder.join ⟨name⟩) pid = holder.join ⟨name ++ partialSuffix pid⟩ := by
  have hname := FilePath.not_isAbsolute_of_plain h
  have hstaged := FilePath.not_isAbsolute_of_plain (isPlain_staged h pid)
  rw [FilePath.join, FilePath.join, hname, hstaged, if_neg Bool.false_ne_true,
    if_neg Bool.false_ne_true]
  by_cases hend : holder.text.toList = [] ∨ holder.text.toList.getLast? = some '/'
  · rw [if_pos hend, if_pos hend, stagingDirectory, FilePath.mk.injEq]
    simp only [partialSuffix, String.append_assoc]
  · rw [if_neg hend, if_neg hend, stagingDirectory, FilePath.mk.injEq]
    simp only [partialSuffix, String.append_assoc]

theorem staging_components (root : FilePath) (entry : CacheEntry) (pid : Nat) :
    (stagingDirectory (entry.path gix root) pid).components
      = below root (entry.staged gix pid) := by
  obtain ⟨holder, hholder, hpath⟩ := exists_holder gix root entry
  have hplain := last_plain entry
  rw [hpath, stagingDirectory_join holder hplain,
    FilePath.components_join _ (isPlain_staged hplain pid), hholder, below, below, CacheEntry.staged, List.map_append, List.append_assoc]
  rfl

/-! ## Which names collide -/

variable {gix}

/-- The same last name follows the same kind, remote and revision. -/
theorem append_last_prefix {a b : CacheEntry} {x y : String}
    (h : a.upper gix ++ [x] <+: b.upper gix ++ [y]) : a.upper gix = b.upper gix ∧ x = y := by
  have hkinds : "git" ≠ "prebuilt" := by decide
  cases a with
  | checkout source =>
    cases b with
    | checkout source' => simpa [CacheEntry.upper, List.cons_prefix_cons] using h
    | prebuilt source' _ _ =>
      have hhead := (List.cons_prefix_cons.mp h).1
      exact absurd hhead hkinds
  | prebuilt source _ _ =>
    cases b with
    | checkout source' =>
      have hhead := (List.cons_prefix_cons.mp h).1
      exact absurd hhead.symm hkinds
    | prebuilt source' _ _ => simpa [CacheEntry.upper, List.cons_prefix_cons, and_assoc] using h

theorem segments_incomparable {a b : CacheEntry} (h : a.segments gix <+: b.segments gix) :
    a.segments gix = b.segments gix := by
  obtain ⟨hupper, hlast⟩ := append_last_prefix h
  rw [CacheEntry.segments, CacheEntry.segments, hupper, hlast]

theorem partialSuffix_inj {x y : String} {p q : Nat}
    (h : x ++ partialSuffix p = y ++ partialSuffix q) : x = y ∧ p = q := by
  simp only [partialSuffix, ← String.append_assoc] at h
  rw [String.append_left_inj] at h
  have hdigits : ∀ n : Nat, '.' ∉ n.repr.toList := fun n => Text.not_mem_repr n (by decide)
  have hchars : x.toList ++ '.' :: p.repr.toList = y.toList ++ '.' :: q.repr.toList := by
    have htexts := congrArg String.toList h
    have hdot : (".").toList = ['.'] := by decide
    rw [String.toList_append, String.toList_append, String.toList_append, String.toList_append,
      hdot, List.append_assoc, List.append_assoc] at htexts
    exact htexts
  obtain ⟨hname, hpid⟩ := Text.sep_append_inj (hdigits p) (hdigits q) hchars
  exact ⟨String.toList_injective hname, Text.repr_inj (String.toList_injective hpid)⟩

/-- No entry is named like a staging directory. -/
theorem last_ne_staged (a : CacheEntry) {b : CacheEntry} (hupper : a.upper gix = b.upper gix)
    (pid : Nat) : b.last ≠ a.last ++ partialSuffix pid := by
  intro h
  have htail : ".partial".toList <:+ b.last.toList := by
    rw [h, partialSuffix, String.toList_append, String.toList_append]
    exact (List.suffix_append _ _).trans (List.suffix_append _ _)
  cases b with
  | checkout source =>
    have hdot : '.' ∈ source.rev.text.toList := htail.subset (by decide)
    exact absurd (rev_isHexDigit source.rev _ hdot) (by decide)
  | prebuilt source identity target => exact tag_noPartial identity target htail

theorem parent_below (root : FilePath) (upper : List String) (name : String) {path : FilePath}
    (h : path.components = below root (upper ++ [name])) :
    path.parent = some (below root upper) := by
  have hlast : path.components = below root upper ++ [.Normal name.toList] := by
    rw [h, below, below, List.map_append, List.append_assoc]
    rfl
  rw [FilePath.parent, hlast, List.getLast?_concat, List.dropLast_concat]

/-- A staging directory is no entry, whatever entry it is for. -/
theorem staged_ne_segments (a b : CacheEntry) (pid : Nat) :
    ¬a.staged gix pid <+: b.segments gix := by
  intro h
  obtain ⟨hupper, hlast⟩ := append_last_prefix h
  exact last_ne_staged a hupper pid hlast.symm

theorem staging_ne_path (root : FilePath) (a b : CacheEntry) (pid : Nat) :
    stagingDirectory (a.path gix root) pid ≠ b.path gix root := by
  intro h
  have hcomponents := congrArg FilePath.components h
  rw [staging_components, path_components, below_inj] at hcomponents
  have hprefix : a.staged gix pid <+: b.segments gix := hcomponents ▸ List.prefix_refl _
  exact staged_ne_segments a b pid hprefix

/-- A path tells its names. -/
theorem segments_of_path (root : FilePath) {a b : CacheEntry}
    (h : a.path gix root = b.path gix root) : a.segments gix = b.segments gix := by
  have hcomponents := congrArg FilePath.components h
  rwa [path_components, path_components, below_inj] at hcomponents

theorem path_parent (root : FilePath) (entry : CacheEntry) :
    (entry.path gix root).parent.isSome = true := by
  rw [parent_below root _ _ (path_components gix root entry)]
  rfl

/-! ## The layout -/

/-- Slugs are directory names. A checkout stands at `git/<remote>/<rev>` and libraries at
    `prebuilt/<remote>/<rev>/<tag>`, where each name is one component. Directories of different
    names are apart, and none holds another. The staging directory of one is its sibling, belongs to
    one destination and process, and is no destination and neither inside nor above one. -/
theorem cache_layout (gix : Gix) (root : FilePath) :
    (∀ url : GitUrl, url.slug.toList ≠ [] ∧
      (∀ c ∈ url.slug.toList, isAsciiAlphanumeric c = true ∨ c = '-') ∧
      url.slug.toList.head? ≠ some '-' ∧ url.slug.toList.getLast? ≠ some '-') ∧
    (∀ source, (checkoutDirectoryIn gix root source).components = root.components ++
      [.Normal "git".toList, .Normal (remoteDirectory gix source).toList,
        .Normal source.rev.text.toList]) ∧
    (∀ source identity (target : Target),
      (prebuiltDirectoryIn gix root source (AbiTag.new identity target.text)).components
        = root.components ++
          [.Normal "prebuilt".toList, .Normal (remoteDirectory gix source).toList,
            .Normal source.rev.text.toList,
            .Normal (AbiTag.new identity target.text).text.toList]) ∧
    (∀ a b : CacheEntry,
      ((a.path gix root).Same (b.path gix root) ↔ a.segments gix = b.segments gix) ∧
      (a.segments gix ≠ b.segments gix → ¬(a.path gix root).startsWith (b.path gix root) ∧
        ¬(b.path gix root).startsWith (a.path gix root))) ∧
    ∀ (a b : CacheEntry) (p q : Nat),
      (stagingDirectory (a.path gix root) p).parent = (a.path gix root).parent ∧
      ((stagingDirectory (a.path gix root) p).Same (stagingDirectory (b.path gix root) q) →
        (a.path gix root).Same (b.path gix root) ∧ p = q) ∧
      ¬(stagingDirectory (a.path gix root) p).Same (b.path gix root) ∧
      ¬(stagingDirectory (a.path gix root) p).startsWith (b.path gix root) ∧
      ¬(b.path gix root).startsWith (stagingDirectory (a.path gix root) p) := by
  have hsame : ∀ a b : CacheEntry,
      (a.path gix root).Same (b.path gix root) ↔ a.segments gix = b.segments gix := by
    intro a b
    rw [FilePath.Same, path_components, path_components, below_inj]
  refine ⟨slug_shape, fun source => path_components gix root (.checkout source),
    fun source identity target => path_components gix root (.prebuilt source identity target),
    ?_, ?_⟩
  · intro a b
    refine ⟨hsame a b, ?_⟩
    intro hne
    rw [FilePath.startsWith, FilePath.startsWith, path_components, path_components, below_prefix,
      below_prefix]
    exact ⟨fun h => hne (segments_incomparable h).symm, fun h => hne (segments_incomparable h)⟩
  · intro a b p q
    have hinside : ¬b.segments gix <+: a.staged gix p := by
      intro h
      obtain ⟨hupper, hlast⟩ := append_last_prefix h
      exact last_ne_staged a hupper.symm p hlast
    have habove : ¬a.staged gix p <+: b.segments gix := staged_ne_segments a b p
    refine ⟨?_, ?_, ?_, ?_, ?_⟩
    · rw [parent_below root _ _ (staging_components gix root a p),
        parent_below root _ _ (path_components gix root a)]
    · intro h
      rw [FilePath.Same, staging_components, staging_components, below_inj] at h
      obtain ⟨hupper, hlast⟩ := append_last_prefix (h ▸ List.prefix_refl _ :
        a.staged gix p <+: b.staged gix q)
      obtain ⟨hname, hpid⟩ := partialSuffix_inj hlast
      refine ⟨(hsame a b).mpr ?_, hpid⟩
      rw [CacheEntry.segments, CacheEntry.segments, hupper, hname]
    · rw [FilePath.Same, staging_components, path_components, below_inj]
      intro h
      exact habove (h ▸ List.prefix_refl _)
    · rw [FilePath.startsWith, staging_components, path_components, below_prefix]
      exact hinside
    · rw [FilePath.startsWith, staging_components, path_components, below_prefix]
      exact habove

end Stiles
