import Stiles.Tools.Bundle.CopyPackage
import Stiles.Tools.Bundle.Paths

/-
  What the includes of a crate read in the bundle.

  An include names a path relative to the file that holds it. `IncludesSurvive` says that in the
  bundle the path names a file with the same bytes; `Survives` says of one include, by what stands
  on the disk, when that is so.

  * `sameBytes_iff`: the include reads the same bytes in the bundle if and only if it survives.
  * `includesSurvive_iff`: all includes of a crate do if and only if each survives.
  * `kept_of_recorded`: what the rewrite records, beside the sources, is kept.
  * `not_sameBytes_of_text`: below the sources, only `.rs` files are.
-/

namespace Stiles

namespace Bundle

open TypeScriptProject (Name trailOf)

/-! ## Includes -/

/-- Nothing follows the argument of a call but a comma. -/
def endsCall : List TokenTree → Bool
  | [] => true
  | [.Punct ',' _ _] => true
  | _ => false

/-- The path that an include names as a plain literal. -/
def Occurrence.included (o : Occurrence) : Option String :=
  match o.after with
  | .Punct punct _ _ :: .Group _ (.Literal text _ :: rest) _ :: _ =>
    if (o.name = "include_str" ∨ o.name = "include_bytes") ∧ punct = '!' ∧ endsCall rest = true then
      (unquoted text).filter fun value => !value.toList.contains '\\'
    else none
  | _ => none

/-- The source holds an include of the literal. -/
def HoldsInclude (lexer : Lexer) (disk : Disk) (file : Place) (literal : String) : Prop :=
  ∃ text stream, disk.root.node file = some (.file text) ∧ lexer text = .ok stream ∧
    ∃ o ∈ occurrences [] stream, o.included = some literal

/-- The steps of a path into a directory and back. -/
def stepsOf (literal : String) : List (Option Name) :=
  trailOf (⟨literal⟩ : FilePath).components

/-- The literal is relative, and its path never leaves the directory of the package. -/
def StaysInside (package : Package) (file : Place) (literal : String) : Prop :=
  (⟨literal⟩ : FilePath).isAbsolute = false ∧ ∀ front, front <+: stepsOf literal →
    package.dir <+: Trail.follow file.dropLast front

/-- Relative to the copied file, the literal names a file of the bundle with the bytes of the file
    that it names relative to the original. -/
def SameBytes (disk : Disk) (package : Package) (bundle : Target) (file : Place)
    (literal : String) : Prop :=
  ∃ content,
    bundle.read (file.drop package.dir.length).dropLast (stepsOf literal) = some content ∧
      disk.root.read file.dropLast (stepsOf literal) = some content

section

variable (self : Rewriter) (lexer : Lexer) (disk : Disk) (package : Package)

/-- The file is a source that the rewrite leaves as it is, or a recorded include names it beside the
    sources. -/
def Kept (path : Place) : Prop :=
  IsSource disk package path ∧ (∃ rewritten, Transcribed self lexer disk package path rewritten ∧
      disk.root.node path = some (.file rewritten.text)) ∨
    ¬ package.srcDir <+: path ∧ Included self lexer disk package path

/-- Below the directory a source is copied, or an included file from beside the sources. -/
def HoldsCopy (directory : Place) : Prop :=
  ∃ copied, IsCopied self lexer disk package copied ∧ directory <+: copied ∧ directory ≠ copied

/-- The include names a file that is kept, by way of directories that hold something copied. -/
def Survives (file : Place) (literal : String) : Prop :=
  (∃ content, disk.root.read file.dropLast (stepsOf literal) = some content) ∧
    Kept self lexer disk package (Trail.follow file.dropLast (stepsOf literal)) ∧
    ∀ front, front <+: stepsOf literal → front ≠ stepsOf literal →
      HoldsCopy self lexer disk package (Trail.follow file.dropLast front)

/-- Every include of every source reads in the bundle what it reads on the disk. -/
def IncludesSurvive (bundle : Target) : Prop :=
  ∀ file literal, IsSource disk package file → HoldsInclude lexer disk file literal →
    SameBytes disk package bundle file literal

end

/-! ## One include -/

variable {self : Rewriter} {lexer : Lexer} {disk : Disk} {package : Package} {bundle : Target}

/-- A source stands in a directory below that of the package. -/
theorem IsSource.below {file : Place} (h : IsSource disk package file) :
    ∃ below name, file = package.dir ++ (below ++ [name]) := by
  obtain ⟨⟨relative, rfl⟩, _⟩ := h
  have hne : ["src".toList] ++ relative ≠ [] := List.cons_ne_nil _ _
  refine ⟨(["src".toList] ++ relative).dropLast, (["src".toList] ++ relative).getLast hne, ?_⟩
  rw [List.dropLast_append_getLast, Package.srcDir, List.append_assoc]

/-- What stands at a file of the disk, if anything does, has its bytes if and only if it is kept. -/
theorem Copies.file_iff (h : Copies self lexer disk package bundle) {relative : Place}
    {content : List UInt8}
    (hfile : disk.root.node (package.dir ++ relative) = some (.file content)) :
    bundle.node relative = some (.file content) ↔
      Kept self lexer disk package (package.dir ++ relative) := by
  rw [h.files]
  unfold Kept
  refine or_congr (and_congr_right fun _ => ?_) ?_
  · constructor
    · intro hwrote
      obtain ⟨rewritten, hrewritten, htext⟩ := hwrote
      exact ⟨rewritten, hrewritten, htext ▸ hfile⟩
    · intro hkept
      obtain ⟨rewritten, hrewritten, htext⟩ := hkept
      rw [hfile] at htext
      exact ⟨rewritten, hrewritten, (FileTree.Node.file.inj (Option.some.inj htext)).symm⟩
  · constructor
    · exact fun hfetched => ⟨hfetched.2.1, hfetched.1⟩
    · exact fun hkept => ⟨hkept.2, hkept.1, hfile⟩

/-- A directory of the package is one of the bundle if and only if it holds something copied. -/
theorem Copies.dir_iff (h : Copies self lexer disk package bundle) {file : Place}
    (hsource : IsSource disk package file) (relative : Place) :
    bundle.node relative = some .dir ↔
      HoldsCopy self lexer disk package (package.dir ++ relative) := by
  rw [h.dirs]
  constructor
  · intro hdir
    rcases hdir with rfl | ⟨other, hcopied, hfrom, hne⟩
    · obtain ⟨below, name, rfl⟩ := hsource.below
      refine ⟨_, Or.inl hsource, ?_, fun hsame => ?_⟩
      · rw [List.append_nil]
        exact List.prefix_append _ _
      · have hnil := List.append_cancel_left hsame
        exact List.append_ne_nil_of_right_ne_nil below (List.cons_ne_nil name []) hnil.symm
    · exact ⟨_, hcopied, (List.prefix_append_right_inj _).mpr hfrom,
        fun hsame => hne (List.append_cancel_left hsame)⟩
  · intro hcopy
    obtain ⟨copied, hcopied, ⟨rest, rfl⟩, hne⟩ := hcopy
    rw [List.append_assoc] at hcopied
    refine Or.inr ⟨relative ++ rest, hcopied, List.prefix_append _ _, fun hsame => hne ?_⟩
    rw [List.append_assoc, ← hsame]

/-- The include reads the same bytes in the bundle if and only if it survives. -/
theorem sameBytes_iff (h : Copies self lexer disk package bundle) {file : Place} {literal : String}
    (hsource : IsSource disk package file) (hinside : StaysInside package file literal) :
    SameBytes disk package bundle file literal ↔ Survives self lexer disk package file literal := by
  obtain ⟨below, name, hfile⟩ := hsource.below
  have hdirectory : file.dropLast = package.dir ++ below := by
    rw [hfile, ← List.append_assoc, List.dropLast_concat]
  have hrelative : (file.drop package.dir.length).dropLast = below := by
    rw [hfile, List.drop_left, List.dropLast_concat]
  obtain ⟨_, hstays⟩ := hinside
  unfold SameBytes Survives
  rw [hrelative, hdirectory] at *
  have hfollow : ∀ front, front <+: stepsOf literal →
      Trail.follow (package.dir ++ below) front = package.dir ++ Trail.follow below front :=
    fun front hfront => Trail.follow_append fun other hother => hstays other (hother.trans hfront)
  have hpasses : bundle.Passes below (stepsOf literal) ↔
      ∀ front, front <+: stepsOf literal → front ≠ stepsOf literal →
        HoldsCopy self lexer disk package (Trail.follow (package.dir ++ below) front) := by
    refine forall_congr' fun front => forall_congr' fun hfront => forall_congr' fun _ => ?_
    rw [hfollow front hfront, h.dir_iff hsource]
  have hwhole := hfollow (stepsOf literal) List.prefix_rfl
  constructor
  · intro hsame
    obtain ⟨content, hbundle, hdisk⟩ := hsame
    obtain ⟨hcopied, hdirs⟩ := FileTree.read_eq_some.mp hbundle
    have hnode := (FileTree.read_eq_some.mp hdisk).1
    rw [hwhole] at hnode ⊢
    exact ⟨⟨content, hdisk⟩, (h.file_iff hnode).mp hcopied, hpasses.mp hdirs⟩
  · intro hsurvives
    obtain ⟨⟨content, hdisk⟩, hkept, hdirs⟩ := hsurvives
    have hnode := (FileTree.read_eq_some.mp hdisk).1
    rw [hwhole] at hnode hkept
    exact ⟨content, FileTree.read_eq_some.mpr ⟨(h.file_iff hnode).mpr hkept, hpasses.mpr hdirs⟩,
      hdisk⟩

/-- All includes of a crate read in the bundle what they read on the disk if and only if each
    survives. -/
theorem includesSurvive_iff {out : Place}
    (hcopy : copyPackage self lexer disk package out = .ok bundle)
    (hinside : ∀ file literal, IsSource disk package file → HoldsInclude lexer disk file literal →
      StaysInside package file literal) :
    IncludesSurvive lexer disk package bundle ↔
      ∀ file literal, IsSource disk package file → HoldsInclude lexer disk file literal →
        Survives self lexer disk package file literal := by
  refine forall_congr' fun file => forall_congr' fun literal => forall_congr' fun hsource =>
    forall_congr' fun hincluded => ?_
  exact sameBytes_iff (copyPackage_ok hcopy) hsource (hinside file literal hsource hincluded)

/-! ## What is kept -/

namespace Rewriter

variable {module : String}

theorem includesAt_of_call {o : Occurrence} (hreads : self.Reads module o)
    (hname : o.name = "include_str" ∨ o.name = "include_bytes") (hcrate : o.name ∉ self.crates)
    {literal : String} {stop : Nat} (hcall : o.call = some (literal, stop)) :
    self.includesAt module o = [literal] := by
  have hnotCrate : o.name ≠ "crate" := by
    rcases hname with h | h
    · rw [h]; decide
    · rw [h]; decide
  have hnotEnv : o.name ≠ "env" := by
    rcases hname with h | h
    · rw [h]; decide
    · rw [h]; decide
  have hinclude :
      (decide (o.name = "include_str") || decide (o.name = "include_bytes")) = true := by
    rw [Bool.or_eq_true, decide_eq_true_iff, decide_eq_true_iff]
    exact hname
  unfold Reads at hreads
  unfold includesAt
  unfold pushedAt at hreads ⊢
  unfold visitIdent at hreads ⊢
  rw [if_neg hnotCrate, if_neg hcrate, if_neg hnotEnv, if_pos hinclude] at hreads ⊢
  rcases o.macroLiteral_eq.2 literal stop hcall with hread | ⟨e, he⟩
  · rw [hread]
    rfl
  · rw [he] at hreads
    cases hreads

/-- What a rewrite that succeeds records. -/
theorem includes_of_rewrite {text : List UInt8} {rewritten : Rewritten}
    (h : self.rewrite lexer text module = .ok rewritten) :
    ∃ stream, lexer text = .ok stream ∧ (∀ o ∈ occurrences [] stream, self.Reads module o) ∧
      rewritten.includes = (occurrences [] stream).flatMap (self.includesAt module) := by
  unfold rewrite at h
  split at h
  · cases h
  · rename_i stream hlex
    split at h
    · cases h
    · rename_i pushed hvisit
      have hreads := reads_of_visitFrom [] stream (withContext_eq_ok.mp hvisit)
      have hpushed := withContext_eq_ok.mp hvisit
      rw [self.visit_eq hreads] at hpushed
      obtain rfl := Except.ok.inj hpushed
      refine ⟨stream, hlex, hreads, ?_⟩
      cases happly : withContext "failed to apply the rewrite"
          (apply text (self.pushedBy module (occurrences [] stream)).edits) with
      | error e =>
        rw [happly] at h
        cases h
      | ok output =>
        rw [happly] at h
        obtain rfl := Except.ok.inj h
        rfl

end Rewriter

/-- An include that is a literal alone, in a bundle with no crate of its name, keeps the file that
    it names beside the sources. -/
theorem kept_of_recorded (h : Copies self lexer disk package bundle) {file : Place}
    {text : List UInt8} {stream : List TokenTree} {o : Occurrence} {literal : String} {stop : Nat}
    (hsource : IsSource disk package file) (htext : disk.root.node file = some (.file text))
    (hlex : lexer text = .ok stream) (ho : o ∈ occurrences [] stream)
    (hname : o.name = "include_str" ∨ o.name = "include_bytes") (hcrate : o.name ∉ self.crates)
    (hcall : o.call = some (literal, stop)) (hinside : StaysInside package file literal)
    (hbeside : ¬ package.srcDir <+: Trail.follow file.dropLast (stepsOf literal)) :
    Kept self lexer disk package (Trail.follow file.dropLast (stepsOf literal)) := by
  obtain ⟨rewritten, hrewritten⟩ := h.transcribed file hsource
  refine Or.inr ⟨hbeside, file, rewritten, hsource, hrewritten, ?_⟩
  obtain ⟨held, hheld, hrewrite⟩ := hrewritten
  rw [htext] at hheld
  obtain rfl := FileTree.Node.file.inj (Option.some.inj hheld)
  obtain ⟨other, hother, hreads, hincludes⟩ := Rewriter.includes_of_rewrite hrewrite
  rw [hlex] at hother
  obtain rfl := Except.ok.inj hother
  have hrecorded : literal ∈ rewritten.includes := by
    rw [hincludes, List.mem_flatMap]
    refine ⟨o, ho, ?_⟩
    rw [Rewriter.includesAt_of_call (hreads o ho) hname hcrate hcall]
    exact List.mem_singleton_self literal
  unfold pathsOf
  rw [List.mem_map]
  exact ⟨literal, hrecorded, normalize_joined hinside.1⟩

/-- An include of a file below the sources that is no `.rs` file is lost. -/
theorem not_sameBytes_of_text (h : Copies self lexer disk package bundle) {file : Place}
    {literal : String} (hsource : IsSource disk package file)
    (hinside : StaysInside package file literal)
    (hbelow : package.srcDir <+: Trail.follow file.dropLast (stepsOf literal))
    (htext : isRust (Trail.follow file.dropLast (stepsOf literal)) = false) :
    ¬ SameBytes disk package bundle file literal := by
  rw [sameBytes_iff h hsource hinside]
  intro hsurvives
  obtain ⟨_, hkept, _⟩ := hsurvives
  rcases hkept with ⟨hrust, _⟩ | ⟨hbeside, _⟩
  · rw [hrust.2.1] at htext
    cases htext
  · exact hbeside hbelow

/-! ## Two crates -/

/-- The only source of a package. -/
theorem eq_of_rustFiles {file only : Place} (h : rustFiles disk package.srcDir = .ok [only])
    (hsource : IsSource disk package file) : file = only :=
  List.mem_singleton.mp ((mem_rustFiles h file).1 hsource)

/-- The only include of a stream. -/
theorem eq_of_holdsInclude {stream : List TokenTree} {file : Place} {literal only : String}
    (h : (occurrences [] stream).filterMap Occurrence.included = [only])
    (hincluded : HoldsInclude (fun _ => .ok stream) disk file literal) : literal = only := by
  obtain ⟨_, _, _, hlex, o, ho, hliteral⟩ := hincluded
  obtain rfl := Except.ok.inj hlex
  exact List.mem_singleton.mp (h ▸ List.mem_filterMap.mpr ⟨o, ho, hliteral⟩)

def libPackage : Package :=
  { name := "tsrs_core", manifestPath := ⟨"/core/Cargo.toml"⟩, dependencies := [] }

/-- The only source of the package. -/
def libPath : Place := ["core".toList, "src".toList, "lib.rs".toList]

/-- A package with one source, other files below its sources, and files beside them. -/
def libDisk (text : String) (below beside : FileTree Name (List UInt8)) : Disk where
  root := .dir "core".toList
    (.dir "src".toList (.file "lib.rs".toList (ascii text) below) beside) .nil
  failure _ := ⟨"No such file or directory (os error 2)"⟩

/-- `include_str!("...")`, with where the literal stops. -/
def includeStream (literal : String) (stop : Nat) : List TokenTree :=
  [.Ident "include_str" ⟨0, 11⟩, .Punct '!' .Alone ⟨11, 12⟩,
    .Group .Parenthesis [.Literal literal ⟨13, stop⟩] ⟨12, stop + 1⟩]

theorem staysInside_of_inits {file : Place} {literal : String}
    (hrelative : (⟨literal⟩ : FilePath).isAbsolute = false)
    (h : ∀ front ∈ (stepsOf literal).inits, package.dir <+: Trail.follow file.dropLast front) :
    StaysInside package file literal :=
  ⟨hrelative, fun front hfront => h front ((List.mem_inits _ _).mpr hfront)⟩

/-- `include_str!("../a.txt")` in `src/lib.rs`, and a file `a.txt` beside the sources. -/
def besideDisk : Disk :=
  libDisk "include_str!(\"../a.txt\")" .nil (.file "a.txt".toList (ascii "x") .nil)

def besideStream : List TokenTree := includeStream "\"../a.txt\"" 23

def besideBundle : Target :=
  .dir "src".toList (.file "lib.rs".toList (ascii "include_str!(\"../a.txt\")") .nil)
    (.file "a.txt".toList (ascii "x") .nil)

/-- A text beside the sources reaches the bundle. -/
theorem beside_survives :
    copyPackage coreRewriter (fun _ => .ok besideStream) besideDisk libPackage [] =
        .ok besideBundle ∧
      IncludesSurvive (fun _ => .ok besideStream) besideDisk libPackage besideBundle := by
  have hcopy : copyPackage coreRewriter (fun _ => .ok besideStream) besideDisk libPackage [] =
      .ok besideBundle := by decide +kernel
  have hfiles : rustFiles besideDisk libPackage.srcDir = .ok [libPath] := by decide +kernel
  have hincludes : (occurrences [] besideStream).filterMap Occurrence.included =
      ["../a.txt"] := by decide +kernel
  have hinside : StaysInside libPackage libPath "../a.txt" :=
    staysInside_of_inits (by decide +kernel) (by decide +kernel)
  have hsource : IsSource besideDisk libPackage libPath :=
    ⟨by decide +kernel, by decide +kernel, ascii "include_str!(\"../a.txt\")", by decide +kernel⟩
  refine ⟨hcopy, (includesSurvive_iff hcopy ?_).mpr ?_⟩
  · intro file literal hfile hliteral
    rw [eq_of_rustFiles hfiles hfile, eq_of_holdsInclude hincludes hliteral]
    exact hinside
  · intro file literal hfile hliteral
    rw [eq_of_rustFiles hfiles hfile, eq_of_holdsInclude hincludes hliteral]
    refine ⟨⟨ascii "x", by decide +kernel⟩, ?_, fun front hfront hne => ?_⟩
    · have ho : ⟨[], "include_str", ⟨0, 11⟩, besideStream.tail⟩ ∈ occurrences [] besideStream :=
        List.mem_singleton_self _
      exact kept_of_recorded (copyPackage_ok hcopy) hsource
        (by decide +kernel : besideDisk.root.node libPath =
          some (.file (ascii "include_str!(\"../a.txt\")"))) rfl ho (Or.inl rfl) (by decide)
        (by decide +kernel : Occurrence.call ⟨[], "include_str", ⟨0, 11⟩, besideStream.tail⟩ =
          some ("../a.txt", 24)) hinside (by decide +kernel)
    · have habove : ∀ front ∈ (stepsOf "../a.txt").inits,
          Trail.follow libPath.dropLast front <+: libPath ∧
            Trail.follow libPath.dropLast front ≠ libPath ∨ front = stepsOf "../a.txt" := by
        decide +kernel
      exact ⟨libPath, Or.inl hsource,
        (habove front ((List.mem_inits _ _).mpr hfront)).resolve_right hne⟩

/-- `include_str!("a.txt")` in `src/lib.rs`, and a file `a.txt` next to it. -/
def belowDisk : Disk :=
  libDisk "include_str!(\"a.txt\")" (.file "a.txt".toList (ascii "x") .nil) .nil

def belowStream : List TokenTree := includeStream "\"a.txt\"" 20

def belowBundle : Target :=
  .dir "src".toList (.file "lib.rs".toList (ascii "include_str!(\"a.txt\")") .nil) .nil

/-- A text below the sources is left out of the bundle. -/
theorem below_left_out :
    copyPackage coreRewriter (fun _ => .ok belowStream) belowDisk libPackage [] =
        .ok belowBundle ∧
      (∀ file literal, IsSource belowDisk libPackage file →
        HoldsInclude (fun _ => .ok belowStream) belowDisk file literal →
        StaysInside libPackage file literal) ∧
      belowDisk.root.read libPath.dropLast (stepsOf "a.txt") = some (ascii "x") ∧
      belowBundle.node ["src".toList, "a.txt".toList] = none ∧
      ¬ IncludesSurvive (fun _ => .ok belowStream) belowDisk libPackage belowBundle := by
  have hcopy : copyPackage coreRewriter (fun _ => .ok belowStream) belowDisk libPackage [] =
      .ok belowBundle := by decide +kernel
  have hfiles : rustFiles belowDisk libPackage.srcDir = .ok [libPath] := by decide +kernel
  have hincludes : (occurrences [] belowStream).filterMap Occurrence.included = ["a.txt"] := by
    decide +kernel
  have hinside : StaysInside libPackage libPath "a.txt" :=
    staysInside_of_inits (by decide +kernel) (by decide +kernel)
  have hsource : IsSource belowDisk libPackage libPath :=
    ⟨by decide +kernel, by decide +kernel, ascii "include_str!(\"a.txt\")", by decide +kernel⟩
  have hholds : HoldsInclude (fun _ => .ok belowStream) belowDisk libPath "a.txt" :=
    ⟨ascii "include_str!(\"a.txt\")", belowStream, by decide +kernel, rfl,
      ⟨[], "include_str", ⟨0, 11⟩, belowStream.tail⟩, List.mem_singleton_self _, by decide +kernel⟩
  refine ⟨hcopy, ?_, by decide +kernel, by decide +kernel, fun hsurvive => ?_⟩
  · intro file literal hfile hliteral
    rw [eq_of_rustFiles hfiles hfile, eq_of_holdsInclude hincludes hliteral]
    exact hinside
  · exact not_sameBytes_of_text (copyPackage_ok hcopy) hsource hinside (by decide +kernel)
      (by decide +kernel) (hsurvive libPath "a.txt" hsource hholds)

end Bundle

end Stiles
