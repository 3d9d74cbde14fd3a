import Mathlib.Data.List.Flatten
import Stiles.Tools.Bundle.Rewrite

/-
  Which paths of a file the bundle moves, and that the rewrite moves exactly those.

  A `crate` that starts a path gains the module, a crate of the bundle that starts a path gains
  `crate::`, or loses its own segment before an exported macro, and the directory of the manifest
  gains that of the crate. `required` says so of one identifier; it looks at what stands before the
  identifier, where a `.` of a range is no field access. The name that a doc comment is lexed with
  is none of the file.

  * `editsAt_eq_iff`: the rewrite does at an identifier what is required unless it `Misses` it.
  * `flatMap_inj`: different edits at one identifier are different edits of the file.
  * `rewritesExactly_iff`: the rewrite makes exactly the required splices if and only if it misses no
    identifier of the file.
-/

namespace Stiles

namespace Bundle

/-- The token before `tokens[index]` is the last `.` of a `..`. -/
def followsRange (tokens : List TokenTree) (index : Nat) : Bool :=
  match index with
  | start + 2 => isPunct tokens (start + 1) '.' &&
    match tokens[start]? with
    | some (.Punct character spacing _) => character = '.' && spacing = .Joint
    | _ => false
  | _ => false

/-- The token before `tokens[index]` is the `.` of a field access. -/
def followsFieldDot (tokens : List TokenTree) (index : Nat) : Bool :=
  match index with
  | 0 => false
  | previous + 1 => isPunct tokens previous '.' && !followsRange tokens (previous + 1)

namespace Occurrence

/-- The identifier is a later segment of a path. -/
def IsLaterSegment (o : Occurrence) : Prop := followsSeparator o.tokens o.index = true

def IsField (o : Occurrence) : Prop := followsFieldDot o.tokens o.index = true

/-- The path goes on behind the identifier. -/
def GoesOn (o : Occurrence) : Prop := isPathSeparator o.tokens (o.index + 1) = true

/-- The next segment ends the path and names an exported macro. -/
def NamesMacro (o : Occurrence) (self : Rewriter) : Prop :=
  self.namesMacro o.tokens (o.index + 3) = true

/-- The identifier is the name of the attribute that a doc comment is lexed as. Only the tokens of a
    doc comment share a span. -/
def InDocComment (o : Occurrence) : Prop :=
  o.index = 0 ∧ o.name = "doc" ∧ o.after.head?.map TokenTree.span = some o.span

instance (o : Occurrence) : Decidable o.InDocComment := inferInstanceAs (Decidable (_ ∧ _))
instance (o : Occurrence) : Decidable o.IsLaterSegment := inferInstanceAs (Decidable (_ = true))
instance (o : Occurrence) : Decidable o.IsField := inferInstanceAs (Decidable (_ = true))
instance (o : Occurrence) : Decidable o.GoesOn := inferInstanceAs (Decidable (_ = true))
instance (o : Occurrence) (self : Rewriter) : Decidable (o.NamesMacro self) :=
  inferInstanceAs (Decidable (_ = true))

/-- The end of the call that reads the directory of the manifest. -/
def manifestDir (o : Occurrence) : Option Nat :=
  match o.call with
  | some (value, stop) =>
    if o.name = "env" ∧ value = "CARGO_MANIFEST_DIR" then some stop else none
  | none => none

end Occurrence

namespace Rewriter

variable (self : Rewriter) (module : String)

/-- A `crate` that starts a path gains the module, unless the path ends with a macro. -/
def requiredCrate (o : Occurrence) : List Edit :=
  if o.name = "crate" ∧ ¬ o.IsLaterSegment ∧ o.GoesOn ∧ ¬ o.NamesMacro self then
    [⟨⟨o.span.stop, o.span.stop⟩, "::" ++ module⟩]
  else []

/-- A crate of the bundle that is no later segment and no field gains `crate::`, up to the name of a
    macro that ends its path. A doc comment names no crate. -/
def requiredBundled (o : Occurrence) : List Edit :=
  if o.name ∈ self.crates ∧ ¬ o.IsLaterSegment ∧ ¬ o.IsField ∧ ¬ o.InDocComment then
    if o.GoesOn ∧ o.NamesMacro self then
      [⟨⟨o.span.start, startOf o.tokens (o.index + 3)⟩, "crate::"⟩]
    else [⟨⟨o.span.start, o.span.start⟩, "crate::"⟩]
  else []

/-- The directory of the manifest gains that of the crate. -/
def requiredDir (o : Occurrence) : List Edit :=
  match o.manifestDir with
  | some stop =>
    [⟨⟨o.span.start, stop⟩, "concat!(env!(\"CARGO_MANIFEST_DIR\"), \"/" ++ module ++ "\")"⟩]
  | none => []

/-- The splices that an identifier calls for. -/
def required (o : Occurrence) : List Edit :=
  self.requiredCrate module o ++ (self.requiredBundled o ++ requiredDir module o)

/-- The identifiers where the rewrite does something else. -/
def Misses (o : Occurrence) : Prop :=
  -- a crate of the bundle behind the dots of a range
  (o.name ≠ "crate" ∧ o.name ∈ self.crates ∧ ¬ o.IsLaterSegment ∧
    followsRange o.tokens o.index = true) ∨
  -- a `crate` that is a later segment
  (o.name = "crate" ∧ o.IsLaterSegment ∧ o.GoesOn ∧ ¬ o.NamesMacro self) ∨
  -- a crate of the bundle that is called like what the other rules look for
  (o.name = "crate" ∧ o.name ∈ self.crates ∧ ¬ o.IsLaterSegment ∧ ¬ o.IsField) ∨
  (o.name = "env" ∧ o.name ∈ self.crates ∧ o.manifestDir ≠ none) ∨
  -- a doc comment, where a crate of the bundle is called `doc`
  (o.name ∈ self.crates ∧ o.InDocComment)

instance (o : Occurrence) : Decidable (self.Misses o) := inferInstanceAs (Decidable (_ ∨ _))

end Rewriter

/-! ## One identifier -/

theorem followsPathOrField_iff (o : Occurrence) :
    followsPathOrField o.tokens o.index = true ↔
      o.IsLaterSegment ∨ o.IsField ∨ followsRange o.tokens o.index = true := by
  unfold Occurrence.IsLaterSegment Occurrence.IsField followsPathOrField followsFieldDot
  cases hindex : o.index with
  | zero => simp [followsSeparator, followsRange]
  | succ previous =>
    rw [Bool.or_eq_true, Bool.and_eq_true, Bool.not_eq_true']
    have hdot : followsRange o.tokens (previous + 1) = true →
        isPunct o.tokens previous '.' = true := by
      intro h
      unfold followsRange at h
      split at h
      · rename_i start hstart
        obtain rfl : previous = start + 1 := by omega
        exact (Bool.and_eq_true_iff.mp h).1
      · cases h
    by_cases hrange : followsRange o.tokens (previous + 1) = true
    · simp [hrange, hdot hrange]
    · simp [hrange]

theorem Occurrence.not_followsRange_of_isField (o : Occurrence) (h : o.IsField) :
    ¬ followsRange o.tokens o.index = true := by
  unfold IsField followsFieldDot at h
  split at h
  · cases h
  · rename_i previous hindex
    rw [hindex]
    rw [Bool.and_eq_true, Bool.not_eq_true'] at h
    rw [h.2]
    exact Bool.false_ne_true

/-- The name of a doc comment is the first token of its list. -/
theorem Occurrence.InDocComment.starts {o : Occurrence} (h : o.InDocComment) :
    ¬ o.IsLaterSegment ∧ ¬ o.IsField ∧ followsPathOrField o.tokens o.index = false := by
  unfold IsLaterSegment IsField
  rw [h.1]
  exact ⟨Bool.false_ne_true, Bool.false_ne_true, rfl⟩

theorem Occurrence.not_inDocComment {o : Occurrence} (h : o.name ≠ "doc") : ¬ o.InDocComment :=
  fun hdoc => h hdoc.2.1

namespace Rewriter

variable {self : Rewriter} {module : String}

theorem editsAt_crate {o : Occurrence} (h : o.name = "crate") :
    self.editsAt module o = if o.GoesOn ∧ ¬ o.NamesMacro self then
      [⟨⟨o.span.stop, o.span.stop⟩, "::" ++ module⟩] else [] := by
  unfold editsAt pushedAt visitIdent Occurrence.GoesOn Occurrence.NamesMacro
  rw [if_pos h]
  by_cases hpath : isPathSeparator o.tokens (o.index + 1) = true
  · by_cases hnamed : self.namesMacro o.tokens (o.index + 3) = true
    · simp [hpath, hnamed, Pushed.nothing]
    · simp [hpath, hnamed, Pushed.edit]
  · simp [hpath, Pushed.nothing]

theorem editsAt_bundled {o : Occurrence} (hcrate : o.name ≠ "crate") (h : o.name ∈ self.crates) :
    self.editsAt module o =
      if followsPathOrField o.tokens o.index = true then []
      else if o.GoesOn ∧ o.NamesMacro self then
        [⟨⟨o.span.start, startOf o.tokens (o.index + 3)⟩, "crate::"⟩]
      else [⟨⟨o.span.start, o.span.start⟩, "crate::"⟩] := by
  unfold editsAt pushedAt visitIdent Occurrence.GoesOn Occurrence.NamesMacro
  rw [if_neg hcrate, if_pos h]
  by_cases hfollows : followsPathOrField o.tokens o.index = true
  · simp [hfollows, Pushed.nothing]
  · by_cases hnamed : isPathSeparator o.tokens (o.index + 1) = true ∧
        self.namesMacro o.tokens (o.index + 3) = true
    · simp [hfollows, hnamed, Pushed.edit]
    · rw [if_neg hfollows, if_neg hfollows, if_neg hnamed, if_neg]
      · rfl
      · rwa [Bool.and_eq_true]

/-- Elsewhere only the directory of the manifest is replaced. -/
theorem editsAt_other {o : Occurrence} (hcrate : o.name ≠ "crate") (h : o.name ∉ self.crates)
    (hreads : self.Reads module o) : self.editsAt module o = requiredDir module o := by
  unfold Reads at hreads
  unfold editsAt requiredDir Occurrence.manifestDir
  unfold pushedAt at hreads ⊢
  unfold visitIdent at hreads ⊢
  rw [if_neg hcrate, if_neg h] at hreads ⊢
  by_cases henv : o.name = "env"
  · rw [if_pos henv] at hreads ⊢
    cases hcall : o.call with
    | none =>
      rw [o.macroLiteral_eq.1 hcall]
      rfl
    | some found =>
      rcases o.macroLiteral_eq.2 found.1 found.2 hcall with hread | ⟨e, he⟩
      · rw [hread]
        simp only [withContext_ok]
        by_cases hdir : found.1 = "CARGO_MANIFEST_DIR"
        · simp [hdir, henv, Pushed.edit]
        · simp [hdir, Pushed.nothing]
      · rw [he] at hreads
        cases hreads
  · rw [if_neg henv] at hreads ⊢
    have hnone : (match o.call with
        | some (value, stop) =>
          if o.name = "env" ∧ value = "CARGO_MANIFEST_DIR" then some stop else none
        | none => none) = none := by
      split
      · rw [if_neg fun hboth => henv hboth.1]
      · rfl
    rw [hnone]
    dsimp only
    split
    · rfl
    · rename_i pushed hpushed
      split at hpushed
      · split at hpushed
        · cases hpushed
        · obtain rfl := Except.ok.inj hpushed
          rfl
        · obtain rfl := Except.ok.inj hpushed
          rfl
      · obtain rfl := Except.ok.inj hpushed
        rfl

theorem requiredDir_of_ne {o : Occurrence} (h : o.name ≠ "env") : requiredDir module o = [] := by
  unfold requiredDir Occurrence.manifestDir
  split
  · rename_i stop hstop
    split at hstop
    · rw [if_neg fun hboth => h hboth.1] at hstop
      cases hstop
    · cases hstop
  · rfl

theorem requiredDir_eq_nil {o : Occurrence} : requiredDir module o = [] ↔ o.manifestDir = none := by
  unfold requiredDir
  cases o.manifestDir with
  | none => exact iff_of_true rfl rfl
  | some stop => exact iff_of_false (fun h => by cases h) (fun h => by cases h)

theorem requiredBundled_eq_nil {o : Occurrence} : self.requiredBundled o = [] ↔
    ¬ (o.name ∈ self.crates ∧ ¬ o.IsLaterSegment ∧ ¬ o.IsField ∧ ¬ o.InDocComment) := by
  unfold requiredBundled
  by_cases h : o.name ∈ self.crates ∧ ¬ o.IsLaterSegment ∧ ¬ o.IsField ∧ ¬ o.InDocComment
  · rw [if_pos h]
    refine iff_of_false (fun hnil => ?_) (not_not.mpr h)
    split at hnil
    · cases hnil
    · cases hnil
  · rw [if_neg h]
    exact iff_of_true rfl h

/-- At a `crate` the rewrite does what is required unless the `crate` is a later segment or a crate
    of the bundle. -/
theorem editsAt_eq_iff_crate {o : Occurrence} (h : o.name = "crate") :
    self.editsAt module o = self.required module o ↔ ¬ self.Misses o := by
  have hdir : requiredDir module o = [] := requiredDir_of_ne (by rw [h]; decide)
  have henv : o.name ≠ "env" := by rw [h]; decide
  have hdoc : ¬ o.InDocComment := Occurrence.not_inDocComment (by rw [h]; decide)
  unfold required
  rw [editsAt_crate h, hdir, List.append_nil, requiredCrate]
  unfold Misses
  by_cases hlater : o.IsLaterSegment
  · have hbundled : self.requiredBundled o = [] :=
      requiredBundled_eq_nil.mpr fun hall => hall.2.1 hlater
    rw [hbundled, List.append_nil]
    by_cases hmoved : o.GoesOn ∧ ¬ o.NamesMacro self <;> simp [h, hlater, hmoved, hdoc]
  · by_cases hbundled : o.name ∈ self.crates ∧ ¬ o.IsLaterSegment ∧ ¬ o.IsField
    · have hne : self.requiredBundled o ≠ [] :=
        fun hnil => requiredBundled_eq_nil.mp hnil
          ⟨hbundled.1, hbundled.2.1, hbundled.2.2, hdoc⟩
      refine iff_of_false (fun heq => hne ?_) (not_not.mpr (Or.inr (Or.inr (Or.inl ⟨h, hbundled⟩))))
      have hsame : (if o.name = "crate" ∧ ¬ o.IsLaterSegment ∧ o.GoesOn ∧ ¬ o.NamesMacro self then
          [(⟨⟨o.span.stop, o.span.stop⟩, "::" ++ module⟩ : Edit)] else []) =
          if o.GoesOn ∧ ¬ o.NamesMacro self then [⟨⟨o.span.stop, o.span.stop⟩, "::" ++ module⟩]
          else [] := by simp [h, hlater]
      rw [hsame] at heq
      exact List.self_eq_append_right.mp heq
    · rw [requiredBundled_eq_nil.mpr fun hall => hbundled ⟨hall.1, hall.2.1, hall.2.2.1⟩,
        List.append_nil]
      refine iff_of_true (by simp [h, hlater]) ?_
      rintro (⟨hne, _⟩ | ⟨_, hlater', _⟩ | ⟨_, hall⟩ | ⟨hne, _⟩ | ⟨_, hcomment⟩)
      · exact hne h
      · exact hlater hlater'
      · exact hbundled hall
      · exact henv hne
      · exact hdoc hcomment

/-- At a doc comment it pushes an edit where nothing is required, if a crate of the bundle is called
    `doc`. -/
theorem editsAt_ne_doc {o : Occurrence} (h : o.name ∈ self.crates) (hdoc : o.InDocComment) :
    self.editsAt module o ≠ self.required module o := by
  have hcrate : o.name ≠ "crate" := by rw [hdoc.2.1]; decide
  have hdir : requiredDir module o = [] := requiredDir_of_ne (by rw [hdoc.2.1]; decide)
  have hfirst : self.requiredCrate module o = [] := if_neg fun hall => hcrate hall.1
  have hsecond : self.requiredBundled o = [] := if_neg fun hall => hall.2.2.2 hdoc
  rw [editsAt_bundled hcrate h, required, hfirst, hsecond, hdir, hdoc.starts.2.2,
    if_neg Bool.false_ne_true]
  split
  · exact List.cons_ne_nil _ _
  · exact List.cons_ne_nil _ _

/-- At another crate of the bundle it does what is required unless the name stands behind a range,
    or is called like the macro of the manifest. -/
theorem editsAt_eq_iff_bundled {o : Occurrence} (hcrate : o.name ≠ "crate")
    (h : o.name ∈ self.crates) (hdoc : ¬ o.InDocComment) :
    self.editsAt module o = self.required module o ↔ ¬ self.Misses o := by
  have hnone : self.requiredCrate module o = [] := if_neg fun hall => hcrate hall.1
  have hmisses : self.Misses o ↔ (¬ o.IsLaterSegment ∧ followsRange o.tokens o.index = true) ∨
      o.manifestDir ≠ none := by
    unfold Misses
    have henv : o.manifestDir ≠ none → o.name = "env" := by
      intro hne
      by_contra hother
      have hnil : requiredDir module o = [] := requiredDir_of_ne hother
      exact hne (requiredDir_eq_nil.mp hnil)
    grind
  unfold required
  rw [editsAt_bundled hcrate h, hnone, List.nil_append, hmisses]
  have hfollows := followsPathOrField_iff o
  by_cases hskip : followsPathOrField o.tokens o.index = true
  · rw [if_pos hskip]
    by_cases hfield : o.IsLaterSegment ∨ o.IsField
    · have hnot : ¬ (o.name ∈ self.crates ∧ ¬ o.IsLaterSegment ∧ ¬ o.IsField ∧
          ¬ o.InDocComment) := by grind
      have hrange : ¬ (¬ o.IsLaterSegment ∧ followsRange o.tokens o.index = true) := by
        have := o.not_followsRange_of_isField
        grind
      rw [requiredBundled_eq_nil.mpr hnot, List.nil_append, eq_comm, requiredDir_eq_nil]
      grind
    · have hne : self.requiredBundled o ≠ [] := by
        rw [Ne, requiredBundled_eq_nil]
        grind
      refine iff_of_false (fun heq => hne (List.append_eq_nil_iff.mp heq.symm).1) ?_
      grind
  · have hstarts : ¬ o.IsLaterSegment ∧ ¬ o.IsField ∧ ¬ followsRange o.tokens o.index = true := by
      grind
    have hbundled : self.requiredBundled o = if o.GoesOn ∧ o.NamesMacro self then
        [⟨⟨o.span.start, startOf o.tokens (o.index + 3)⟩, "crate::"⟩]
        else [⟨⟨o.span.start, o.span.start⟩, "crate::"⟩]  :=
          if_pos ⟨h, hstarts.1, hstarts.2.1, hdoc⟩
    rw [if_neg hskip, ← hbundled, List.self_eq_append_right, requiredDir_eq_nil]
    grind

/-- The rewrite does at an identifier what is required unless it misses it. -/
theorem editsAt_eq_iff {o : Occurrence} (hreads : self.Reads module o) :
    self.editsAt module o = self.required module o ↔ ¬ self.Misses o := by
  by_cases hcrate : o.name = "crate"
  · exact editsAt_eq_iff_crate hcrate
  · by_cases h : o.name ∈ self.crates
    · by_cases hdoc : o.InDocComment
      · exact iff_of_false (editsAt_ne_doc h hdoc)
          (not_not.mpr (Or.inr (Or.inr (Or.inr (Or.inr ⟨h, hdoc⟩)))))
      · exact editsAt_eq_iff_bundled hcrate h hdoc
    · have hfirst : self.requiredCrate module o = [] := if_neg fun hall => hcrate hall.1
      have hsecond : self.requiredBundled o = [] := if_neg fun hall => h hall.1
      rw [editsAt_other hcrate h hreads, required, hfirst, hsecond]
      refine iff_of_true rfl ?_
      unfold Misses
      grind

/-! ## A whole file -/

/-- Where an identifier makes its edits: a module goes behind it, anything else before it. -/
def Owns (o : Occurrence) (edit : Edit) : Prop :=
  if edit.replacement.toList.head? = some ':' then edit.range.start = o.span.stop
  else edit.range.start = o.span.start

instance (o : Occurrence) (edit : Edit) : Decidable (Owns o edit) :=
  inferInstanceAs (Decidable (ite _ _ _))

theorem owns_behind {o : Occurrence} (stop : Nat) :
    Owns o ⟨⟨o.span.stop, stop⟩, "::" ++ module⟩ := by
  unfold Owns
  rw [if_pos]
  rw [String.toList_append]
  rfl

theorem owns_before {o : Occurrence} {stop : Nat} {replacement : String}
    (h : replacement.toList.head? = some 'c') : Owns o ⟨⟨o.span.start, stop⟩, replacement⟩ := by
  unfold Owns
  rw [if_neg]
  show ¬ replacement.toList.head? = some ':'
  rw [h]
  decide

theorem owns_requiredDir {o : Occurrence} : ∀ edit ∈ requiredDir module o, Owns o edit := by
  intro edit hedit
  unfold requiredDir at hedit
  split at hedit
  · obtain rfl := List.mem_singleton.mp hedit
    refine owns_before ?_
    rw [String.toList_append, String.toList_append]
    rfl
  · cases hedit

theorem owns_required {o : Occurrence} : ∀ edit ∈ self.required module o, Owns o edit := by
  intro edit hedit
  unfold required at hedit
  rcases List.mem_append.mp hedit with hcrate | hedit
  · unfold requiredCrate at hcrate
    split at hcrate
    · obtain rfl := List.mem_singleton.mp hcrate
      exact owns_behind _
    · cases hcrate
  · rcases List.mem_append.mp hedit with hbundled | hdir
    · unfold requiredBundled at hbundled
      split at hbundled
      · split at hbundled
        · obtain rfl := List.mem_singleton.mp hbundled
          exact owns_before rfl
        · obtain rfl := List.mem_singleton.mp hbundled
          exact owns_before rfl
      · cases hbundled
    · exact owns_requiredDir edit hdir

theorem owns_editsAt {o : Occurrence} (hreads : self.Reads module o) :
    ∀ edit ∈ self.editsAt module o, Owns o edit := by
  intro edit hedit
  by_cases hcrate : o.name = "crate"
  · rw [editsAt_crate hcrate] at hedit
    split at hedit
    · obtain rfl := List.mem_singleton.mp hedit
      exact owns_behind _
    · cases hedit
  · by_cases h : o.name ∈ self.crates
    · rw [editsAt_bundled hcrate h] at hedit
      split at hedit
      · cases hedit
      · split at hedit
        · obtain rfl := List.mem_singleton.mp hedit
          exact owns_before rfl
        · obtain rfl := List.mem_singleton.mp hedit
          exact owns_before rfl
    · rw [editsAt_other hcrate h hreads] at hedit
      exact owns_requiredDir edit hedit

/-- Different edits at one identifier are different edits of the file. -/
theorem flatMap_inj {f g : Occurrence → List Edit} {at_ stop : Nat} {os : List Occurrence}
    (hwithin : ∀ o ∈ os, o.Within at_ stop)
    (hordered : os.Pairwise fun a b => a.reach ≤ b.span.start)
    (hf : ∀ o ∈ os, ∀ edit ∈ f o, Owns o edit) (hg : ∀ o ∈ os, ∀ edit ∈ g o, Owns o edit)
    (h : os.flatMap f = os.flatMap g) : ∀ o ∈ os, f o = g o := by
  induction os with
  | nil => exact fun o ho => absurd ho List.not_mem_nil
  | cons o os ih =>
    rw [List.pairwise_cons] at hordered
    obtain ⟨_, hspan, hreach, _⟩ := hwithin o List.mem_cons_self
    -- what later identifiers own, the first one does not
    have hlater : ∀ k : Occurrence → List Edit,
        (∀ later ∈ os, ∀ edit ∈ k later, Owns later edit) →
        (os.flatMap k).filter (fun edit => Owns o edit) = [] := by
      intro k hk
      rw [List.filter_eq_nil_iff]
      intro edit hedit howns
      obtain ⟨later, hmem, hedit⟩ := List.mem_flatMap.mp hedit
      have hfrom := hordered.1 later hmem
      obtain ⟨_, hlaterSpan, _, _⟩ := hwithin later (List.mem_cons_of_mem _ hmem)
      have hother := hk later hmem edit hedit
      have hown := of_decide_eq_true howns
      unfold Owns at hown hother
      split at hown
      · rename_i hcolon
        rw [if_pos hcolon] at hother
        omega
      · rename_i hcolon
        rw [if_neg hcolon] at hother
        omega
    have hself : ∀ k : Occurrence → List Edit, (∀ edit ∈ k o, Owns o edit) →
        (k o).filter (fun edit => Owns o edit) = k o := fun k hk =>
      List.filter_eq_self.mpr fun edit hedit => decide_eq_true (hk edit hedit)
    rw [List.flatMap_cons, List.flatMap_cons] at h
    have hfirst : f o = g o := by
      have hfilter := congrArg (List.filter fun edit => Owns o edit) h
      rw [List.filter_append, List.filter_append,
        hself f (hf o List.mem_cons_self), hself g (hg o List.mem_cons_self),
        hlater f fun later hmem => hf later (List.mem_cons_of_mem _ hmem),
        hlater g fun later hmem => hg later (List.mem_cons_of_mem _ hmem), List.append_nil,
        List.append_nil] at hfilter
      exact hfilter
    rw [hfirst] at h
    intro other hother
    rcases List.mem_cons.mp hother with rfl | hmem
    · exact hfirst
    · exact ih (fun later hmem => hwithin later (List.mem_cons_of_mem _ hmem)) hordered.2
        (fun later hmem => hf later (List.mem_cons_of_mem _ hmem))
        (fun later hmem => hg later (List.mem_cons_of_mem _ hmem))
        (List.append_cancel_left h) other hmem

/-- No literal of an `env!` or an include holds an escape. -/
def NoEscape (stream : List TokenTree) : Prop :=
  ∀ o ∈ occurrences [] stream, o.name = "env" ∨ o.name = "include_str" ∨ o.name = "include_bytes" →
    ∀ e, macroLiteral o.tokens o.index ≠ .error e

theorem reads_of_noEscape {stream : List TokenTree} (h : NoEscape stream) :
    ∀ o ∈ occurrences [] stream, self.Reads module o := by
  intro o ho
  have hread := h o ho
  unfold Reads pushedAt
  cases hvisit : self.visitIdent module o.tokens o.index o.name o.span with
  | ok pushed => rfl
  | error e =>
    exfalso
    unfold visitIdent at hvisit
    split at hvisit
    · split at hvisit <;> cases hvisit
    · split at hvisit
      · split at hvisit
        · cases hvisit
        · split at hvisit <;> cases hvisit
      · split at hvisit
        · rename_i henv
          cases hliteral : macroLiteral o.tokens o.index with
          | error e => exact hread (Or.inl henv) e hliteral
          | ok found =>
            rw [hliteral, withContext_ok] at hvisit
            split at hvisit
            · rename_i heq
              cases heq
            · cases hvisit
            · split at hvisit <;> cases hvisit
        · split at hvisit
          · rename_i hinclude
            cases hliteral : macroLiteral o.tokens o.index with
            | error e =>
              rw [Bool.or_eq_true, decide_eq_true_iff, decide_eq_true_iff] at hinclude
              exact hread (Or.inr hinclude) e hliteral
            | ok found =>
              rw [hliteral, withContext_ok] at hvisit
              split at hvisit
              · rename_i heq
                cases heq
              · cases hvisit
              · cases hvisit
          · cases hvisit

/-- The rewrite succeeds, its edits are the required ones, no two overlap, and its text is the file
    with these splices made and every other byte as it was. -/
def RewritesExactly (self : Rewriter) (lexer : Lexer) (text : List UInt8) (module : String)
    (stream : List TokenTree) : Prop :=
  ∃ pushed output, self.visit module stream .nothing = .ok pushed ∧
    self.rewrite lexer text module = .ok ⟨output, pushed.includes⟩ ∧
    pushed.edits.Pairwise (fun a b => a.range.stop ≤ b.range.start) ∧
    pushed.edits = (occurrences [] stream).flatMap (self.required module) ∧
    Splice.Spliced 0 (((occurrences [] stream).flatMap (self.required module)).map Edit.splice)
      text output

/-- The rewrite makes exactly the required splices if and only if it misses no identifier. -/
theorem rewritesExactly_iff {lexer : Lexer} {text : List UInt8} {stream : List TokenTree}
    (hlex : lexer text = .ok stream) (hlaid : LaidOut 0 stream text.length)
    (hescape : NoEscape stream) :
    self.RewritesExactly lexer text module stream ↔
      ∀ o ∈ occurrences [] stream, ¬ self.Misses o := by
  have hreads : ∀ o ∈ occurrences [] stream, self.Reads module o := reads_of_noEscape hescape
  have hvisit := self.visit_eq hreads
  constructor
  · intro h
    obtain ⟨pushed, output, hpushed, _, _, hedits, _⟩ := h
    rw [hvisit] at hpushed
    obtain rfl := Except.ok.inj hpushed
    have hpoint := flatMap_inj (occurrences_within [] hlaid)
      (occurrences_ordered [] hlaid) (fun o ho => owns_editsAt (hreads o ho))
      (fun o _ => owns_required) hedits
    exact fun o ho => (editsAt_eq_iff (hreads o ho)).mp (hpoint o ho)
  · intro h
    obtain ⟨output, hrewrite, hordered, hspliced⟩ := self.rewrite_eq hlex hlaid hreads
    have hedits : (occurrences [] stream).flatMap (self.editsAt module) =
        (occurrences [] stream).flatMap (self.required module) :=
      List.flatMap_congr fun o ho => (editsAt_eq_iff (hreads o ho)).mpr (h o ho)
    refine ⟨_, output, hvisit, hrewrite, ?_, hedits, ?_⟩
    · exact List.pairwise_map.mp hordered.pairwise
    · rw [← hedits]
      exact hspliced

end Rewriter

/-! ## Two files -/

/-- The bytes of an ASCII text. -/
def ascii (text : String) : List UInt8 := text.toList.map fun c => UInt8.ofNat c.toNat

/-- A bundle of one crate, with no exported macro. -/
def coreRewriter : Rewriter := { crates := {"tsrs_core"}, exported := ∅ }

/-- `//! A.`, and `use tsrs_core::A;` on a line of its own. -/
def useStream : List TokenTree :=
  docComment true "\" A.\"" ⟨0, 6⟩ ++
    [.Ident "use" ⟨7, 10⟩, .Ident "tsrs_core" ⟨11, 20⟩, .Punct ':' .Joint ⟨20, 21⟩,
      .Punct ':' .Alone ⟨21, 22⟩, .Ident "A" ⟨22, 23⟩, .Punct ';' .Alone ⟨23, 24⟩]

/-- The import of a crate gains `crate::` and nothing else. -/
theorem use_moves :
    (occurrences [] useStream).flatMap (coreRewriter.required "tsrs_ast") =
        [⟨⟨11, 11⟩, "crate::"⟩] ∧
      coreRewriter.RewritesExactly (fun _ => .ok useStream) (ascii "//! A.\nuse tsrs_core::A;")
        "tsrs_ast" useStream := by
  refine ⟨by decide, (Rewriter.rewritesExactly_iff rfl ?_ ?_).mpr (by decide)⟩
  · have hpath : LaidOut 20 [.Punct ':' .Joint ⟨20, 21⟩, .Punct ':' .Alone ⟨21, 22⟩,
        .Ident "A" ⟨22, 23⟩, .Punct ';' .Alone ⟨23, 24⟩] 24 :=
      .cons (Nat.le_refl _) (.Punct (by decide)) (.cons (Nat.le_refl _) (.Punct (by decide))
        (.cons (Nat.le_refl _) (.Ident (by decide)) (.cons (Nat.le_refl _) (.Punct (by decide))
          (.nil (Nat.le_refl _)))))
    exact .doc true _ _ (by decide) (by decide) (.cons (by decide) (.Ident (by decide))
      (.cons (by decide) (.Ident (by decide)) hpath))
  · intro o ho hname
    have hno : ∀ o ∈ occurrences [] useStream,
        ¬ (o.name = "env" ∨ o.name = "include_str" ∨ o.name = "include_bytes") := by decide
    exact absurd hname (hno o ho)

/-- `const R: X = 0..tsrs_core::MAX;`. -/
def rangeStream : List TokenTree :=
  [.Ident "const" ⟨0, 5⟩, .Ident "R" ⟨6, 7⟩, .Punct ':' .Alone ⟨7, 8⟩, .Ident "X" ⟨9, 10⟩,
    .Punct '=' .Alone ⟨11, 12⟩, .Literal "0" ⟨13, 14⟩, .Punct '.' .Joint ⟨14, 15⟩,
    .Punct '.' .Alone ⟨15, 16⟩, .Ident "tsrs_core" ⟨16, 25⟩, .Punct ':' .Joint ⟨25, 26⟩,
    .Punct ':' .Alone ⟨26, 27⟩, .Ident "MAX" ⟨27, 30⟩, .Punct ';' .Alone ⟨30, 31⟩]

/-- The crate behind the dots of a range is left as it is. -/
theorem range_stays :
    LaidOut 0 rangeStream (ascii "const R: X = 0..tsrs_core::MAX;").length ∧
      Rewriter.NoEscape rangeStream ∧
      coreRewriter.visit "tsrs_ast" rangeStream .nothing = .ok .nothing ∧
      (occurrences [] rangeStream).flatMap (coreRewriter.required "tsrs_ast") =
        [⟨⟨16, 16⟩, "crate::"⟩] ∧
      ¬ coreRewriter.RewritesExactly (fun _ => .ok rangeStream)
        (ascii "const R: X = 0..tsrs_core::MAX;") "tsrs_ast" rangeStream := by
  have hvisit : coreRewriter.visit "tsrs_ast" rangeStream .nothing = .ok .nothing := by rfl
  have hrequired : (occurrences [] rangeStream).flatMap (coreRewriter.required "tsrs_ast") =
      [⟨⟨16, 16⟩, "crate::"⟩] := by decide
  refine ⟨?_, ?_, hvisit, hrequired, ?_⟩
  · have hrange : LaidOut 12 [.Literal "0" ⟨13, 14⟩, .Punct '.' .Joint ⟨14, 15⟩,
        .Punct '.' .Alone ⟨15, 16⟩, .Ident "tsrs_core" ⟨16, 25⟩, .Punct ':' .Joint ⟨25, 26⟩,
        .Punct ':' .Alone ⟨26, 27⟩, .Ident "MAX" ⟨27, 30⟩, .Punct ';' .Alone ⟨30, 31⟩] 31 :=
      .cons (by decide) (.Literal (by decide)) (.cons (Nat.le_refl _) (.Punct (by decide))
        (.cons (Nat.le_refl _) (.Punct (by decide)) (.cons (Nat.le_refl _) (.Ident (by decide))
          (.cons (Nat.le_refl _) (.Punct (by decide)) (.cons (Nat.le_refl _) (.Punct (by decide))
            (.cons (Nat.le_refl _) (.Ident (by decide))
              (.cons (Nat.le_refl _) (.Punct (by decide)) (.nil (Nat.le_refl _)))))))))
    exact .cons (by decide) (.Ident (by decide)) (.cons (by decide) (.Ident (by decide))
      (.cons (by decide) (.Punct (by decide)) (.cons (by decide) (.Ident (by decide))
        (.cons (by decide) (.Punct (by decide)) hrange))))
  · intro o ho hname
    have hno : ∀ o ∈ occurrences [] rangeStream,
        ¬ (o.name = "env" ∨ o.name = "include_str" ∨ o.name = "include_bytes") := by decide
    exact absurd hname (hno o ho)
  · intro h
    obtain ⟨pushed, output, hpushed, _, _, hedits, _⟩ := h
    rw [hvisit] at hpushed
    obtain rfl := Except.ok.inj hpushed
    rw [hrequired] at hedits
    cases hedits

end Bundle

end Stiles
