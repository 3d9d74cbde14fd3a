import Stiles.Config.GitRev
import Stiles.CustomLints.Assemble

/-
  Checkouts of git lint sources (`git_source.rs`): any number of calls of `checkout` for one pin.

  A call checks the destination and then takes the steps of `Assembly.act`. The git library is a
  parameter (`Gix`), and `Documented` is what the code relies on it for.

  `checkout_keeps` says what holds in every interleaving in which no removal step of
  `remove_dir_all` is taken on a directory that `holds` accepts, or leaves one. `checkout_discards`
  is an interleaving where a call acts on an outdated check.
-/

namespace Stiles

open SharedSlot (Accepted)

namespace GitSource

/-- The git library. -/
structure Gix where
  /-- Opens a directory as a repository and reads the commit its `HEAD` resolves to. -/
  headId : List DirEntry → Option String
  /-- What a process has in its staging directory after it created a repository, fetched the pin,
      and wrote the working tree and the index. -/
  prepared : Nat → List DirEntry

/-- Where a call is, and how it ended. `Checkout .Installed` is a call that returned the
    destination. -/
inductive Phase where
  | Start
  | Checkout (stage : Stage)
deriving DecidableEq, Repr

inductive Action where
  | holds
  | checkout (action : Assembly.Action)
deriving DecidableEq

def head : String := ".git/HEAD"

/-- Writes the hash of the commit into the `HEAD` file. -/
def detachHead (entries : List DirEntry) (commit : String) : List DirEntry :=
  entries.filter (fun entry => entry.name ≠ head) ++ [⟨head, true, commit ++ "\n"⟩]

section

variable (gix : Gix) (rev : GitRev) (destination : FilePath)

/-- A pin is a full hash, so reading it as an object id gives it back. -/
def holds (entries : List DirEntry) : Bool := gix.headId entries = some rev.text

def materialize (pid : Nat) : List DirEntry := detachHead (gix.prepared pid) rev.text

def checkout : Assembly where
  destination := destination
  holds := holds gix rev
  assemble := fun pid => some (materialize gix rev pid)

/-- One step of process `pid`. -/
def act (pid : Nat) (files : Files) : Phase → Action → Option (Files × Phase)
  | .Start, .holds =>
    some (files, .Checkout (if (checkout gix rev destination).held files then .Installed
      else .Exists))
  | .Checkout stage, .checkout action =>
    ((checkout gix rev destination).act pid files stage action).map
      fun (files, stage) => (files, .Checkout stage)
  | _, _ => none

abbrev State := Parties.State Files Phase

def step : State → Nat × Action → Option State := Parties.step (act gix rev destination)

end

def init (files : Files) : State := { shared := files, party := fun _ => .Start }

variable {gix : Gix} {rev : GitRev} {destination : FilePath} {tree : List DirEntry}

/-! ## What a checkout holds -/

/-- What the git library does for a commit with the files `tree`. -/
structure Documented (gix : Gix) (rev : GitRev) (tree : List DirEntry) : Prop where
  /-- An empty directory is no repository. -/
  empty : gix.headId [] = none
  /-- A commit cannot hold files under the name of the repository's own. -/
  tracked : ∀ file ∈ tree, file.name ≠ head
  /-- A checkout writes every file of the tree. -/
  written : ∀ pid, tree ⊆ gix.prepared pid
  /-- A `HEAD` file that holds a hash resolves to it. -/
  detached : ∀ pid, gix.headId (detachHead (gix.prepared pid) rev.text) = some rev.text

/-- A complete checkout of the pin: every file of its tree, and `HEAD` at it. -/
structure Complete (gix : Gix) (rev : GitRev) (tree entries : List DirEntry) : Prop where
  files : tree ⊆ entries
  pinned : gix.headId entries = some rev.text

theorem mem_detachHead {entries : List DirEntry} {commit : String} {file : DirEntry}
    (hmem : file ∈ entries) (hname : file.name ≠ head) : file ∈ detachHead entries commit :=
  List.mem_append_left _ (List.mem_filter.mpr ⟨hmem, decide_eq_true hname⟩)

theorem materialize_complete (hgix : Documented gix rev tree) (pid : Nat) :
    Complete gix rev tree (materialize gix rev pid) where
  files := fun file hfile => mem_detachHead (hgix.written pid hfile) (hgix.tracked file hfile)
  pinned := hgix.detached pid

theorem checkout_correct (destination : FilePath) (hgix : Documented gix rev tree) :
    (checkout gix rev destination).Correct (Complete gix rev tree) where
  empty := by simp [checkout, holds, hgix.empty]
  assembled := by
    intro pid entries h
    rw [← Option.some.inj h]
    have hcomplete := materialize_complete hgix pid
    exact ⟨hcomplete, decide_eq_true hcomplete.pinned⟩

/-! ## The steps of a call -/

/-- No removal step is taken on a directory that `holds` accepts, or leaves one. -/
def Guard (gix : Gix) (rev : GitRev) (destination : FilePath) (files : Files) (action : Action) :
    Prop :=
  ∀ act', action = .checkout act' → (checkout gix rev destination).Guard files act'

def stageOf : Phase → Option Stage
  | .Start => none
  | .Checkout stage => some stage

theorem act_embeds : (checkout gix rev destination).Embeds (act gix rev destination) stageOf
    (Guard gix rev destination) where
  cases := by
    intro pid files phase action files' phase' h
    unfold act at h
    split at h
    · cases h
      refine Or.inl ⟨rfl, fun stage hstage => ?_⟩
      cases hstage
      split
      · rename_i hheld
        exact Or.inr ⟨rfl, hheld⟩
      · exact Or.inl rfl
    · rename_i stage act'
      obtain ⟨⟨after, stage'⟩, hact, heq⟩ := Option.map_eq_some_iff.mp h
      cases heq
      exact Or.inr ⟨stage, stage', act', rfl, rfl, hact, fun hguard => hguard act' rfl⟩
    · cases h

/-! ## Every interleaving -/

/-- Whenever a call has returned the destination, it holds a complete checkout, then and at every
    later moment. -/
def KeepsCheckout (gix : Gix) (rev : GitRev) (tree : List DirEntry) (destination : FilePath)
    (files : Files) (actions : List (Nat × Action)) : Prop :=
  ∀ before after, actions = before ++ after →
    ∀ s, Machine.run (step gix rev destination) (init files) before = some s →
      ∀ pid, s.party pid = .Checkout .Installed →
        Accepted (Complete gix rev tree) (s.shared destination) ∧
          ∀ t, Machine.run (step gix rev destination) s after = some t →
            Accepted (Complete gix rev tree) (t.shared destination)

/-- If what `holds` accepts at the start is complete, the calls keep the checkout in every
    interleaving in which no removal step is taken on a directory that `holds` accepts, or leaves
    one. -/
theorem checkout_keeps (gix : Gix) (rev : GitRev) (tree : List DirEntry)
    (hgix : Documented gix rev tree) (destination : FilePath) (files : Files)
    (hstart : (checkout gix rev destination).held files = true →
      Accepted (Complete gix rev tree) (files destination))
    (actions : List (Nat × Action))
    (hguard : Machine.Meets (step gix rev destination)
      (fun s action => Guard gix rev destination s.shared action.2) (init files) actions) :
    KeepsCheckout gix rev tree destination files actions := by
  intro before after hsplit s hs pid hpid
  rw [hsplit] at hguard
  obtain ⟨hbefore, hafter⟩ := Machine.meets_append hguard
  have hcorrect := checkout_correct destination hgix
  have hinv := act_embeds.run_inv hcorrect (Assembly.inv_init hstart fun _ => rfl) hbefore hs
  have husable := (hinv.own pid .Installed (by rw [hpid]; rfl)).told rfl
  have hcomplete := Assembly.inv_held hinv husable
  refine ⟨hcomplete, fun t ht => ?_⟩
  have hsame := act_embeds.run_settled hcorrect hinv (hafter s hs) ht husable
  change t.shared destination = s.shared destination at hsame
  rw [hsame]
  exact hcomplete

/-- A pin whose tree holds one file. -/
def pin : GitRev := ⟨"0123456789abcdef0123456789abcdef01234567", by decide⟩

def oneFile : List DirEntry := [⟨"src/lib.rs", true, "lints"⟩]

/-- Reads a detached `HEAD`. A new repository has one that names a branch. -/
def plainGix : Gix where
  headId entries :=
    if entries.any (fun entry => entry.name = ".git/objects") &&
        entries.any (fun entry => entry.name = ".git/refs") then
      (entries.find? fun entry => entry.name = head).bind fun entry =>
        let text := String.ofList (entry.contents.toList.takeWhile (· ≠ '\n'))
        if isHash text then some text else none
    else none
  prepared _ := oneFile ++ [⟨head, true, "ref: refs/heads/main\n"⟩, ⟨".git/objects", false, ""⟩,
    ⟨".git/refs", false, ""⟩]

theorem plainGix_documented : Documented plainGix pin oneFile where
  empty := rfl
  tracked := by decide
  written := fun _ => List.subset_append_left _ _
  detached := fun _ =>
    have hdetached :
        plainGix.headId (detachHead (plainGix.prepared 0) pin.text) = some pin.text := by
      decide
    hdetached

/-- Two calls that both find nothing and race to the rename. The second one loses it and reads what
    the first installed. -/
def race : List (Nat × Action) :=
  [(0, .holds), (1, .holds), (0, .checkout .exists_), (1, .checkout .exists_),
    (0, .checkout .assemble), (1, .checkout .assemble), (0, .checkout .rename),
    (1, .checkout .renameFails), (1, .checkout .recheck)]

theorem checkout_keeps_race :
    (Machine.run (step plainGix pin ⟨"lints"⟩) (init fun _ => none) race).any
      (fun s => s.party 0 = .Checkout .Installed && s.party 1 = .Checkout .Installed) = true ∧
    KeepsCheckout plainGix pin oneFile ⟨"lints"⟩ (fun _ => none) race :=
  ⟨by decide,
    checkout_keeps plainGix pin oneFile plainGix_documented ⟨"lints"⟩ (fun _ => none)
      (by simp [Assembly.held]) race (by simp [Machine.Meets, Guard, Assembly.Guard, race])⟩

/-- Call 1 looked at the destination before call 0 installed the checkout. Its existence check comes
    after, so it takes the fresh checkout for a damaged one and removes a file. -/
def outdatedCheck : List (Nat × Action) :=
  [(1, .holds), (0, .holds), (0, .checkout .exists_), (0, .checkout .assemble),
    (0, .checkout .rename), (1, .checkout .exists_), (1, .checkout (.unlink "src/lib.rs"))]

theorem checkout_discards :
    ¬ KeepsCheckout plainGix pin oneFile ⟨"lints"⟩ (fun _ => none) outdatedCheck := by
  intro h
  have hends : (Machine.run (step plainGix pin ⟨"lints"⟩) (init fun _ => none)
      outdatedCheck).any (fun s => s.party 0 = .Checkout .Installed &&
        (s.shared ⟨"lints"⟩).all fun directory =>
          directory.entries.all fun entry => entry.name ≠ "src/lib.rs") = true := by
    decide
  obtain ⟨s, hs, hend⟩ := (Option.any_eq_true _ _).mp hends
  rw [Bool.and_eq_true, decide_eq_true_eq] at hend
  obtain ⟨directory, hdirectory, hcomplete⟩ :=
    (h outdatedCheck [] (List.append_nil _).symm s hs 0 hend.1).1
  have hgone := hend.2
  rw [hdirectory, Option.all_some, List.all_eq_true] at hgone
  have hfile := hgone _ (hcomplete.files List.mem_cons_self)
  exact absurd hfile (by decide)

end GitSource

end Stiles
