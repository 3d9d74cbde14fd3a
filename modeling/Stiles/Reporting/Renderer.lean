import Mathlib.Data.List.Forall2
import Stiles.Check.Report

/-
  The diagnostics as they are printed (`renderer.rs` of crate `stiles-reporting`).

  `toCodespan` makes a codespan diagnostic, whose labels point into the files of a `SimpleFiles`.
  `render` reads the files of the primary spans and prints, `renderToString` takes the sources as
  they are given. What codespan writes for a diagnostic is a parameter, and so is the order in which
  a hash map is gone over.

  An `Annotation` is what a diagnostic asks for: its primary span, an origin or a related place.

  * `complete_iff`: a diagnostic has a label for each annotation exactly if the sources hold the
    files of all of them.
  * `collectSources_contains`: which files `render` reads.
-/

namespace Stiles

namespace Reporting

/-! ## Codespan -/

inductive LabelStyle where
  | Primary
  | Secondary
deriving DecidableEq, Repr

structure Label where
  style : LabelStyle
  fileId : Nat
  start : Nat
  stop : Nat
  message : String
deriving DecidableEq, Repr

inductive CodespanSeverity where
  | Help
  | Note
  | Warning
  | Error
  | Bug
deriving DecidableEq, Repr

structure CodespanDiagnostic where
  severity : CodespanSeverity
  code : Option String
  message : String
  labels : List Label
  notes : List String
deriving DecidableEq, Repr

/-- The names and the sources of files. A file's id is its place. -/
structure SimpleFiles where
  files : List (String × String)
deriving DecidableEq, Repr

def SimpleFiles.add (files : SimpleFiles) (name source : String) : Nat × SimpleFiles :=
  (files.files.length, ⟨files.files ++ [(name, source)]⟩)

/-- An error of codespan, as its text. -/
structure FilesError where
  message : String
deriving DecidableEq, Repr

/-- What codespan writes for a diagnostic, and what `String::from_utf8` says of a text. -/
structure Terminal where
  emit : SimpleFiles → CodespanDiagnostic → Except FilesError ByteArray
  utf8Error : ByteArray → String

/-- The standard error. Its answers are indexed by the number of diagnostics before. -/
structure Stderr where
  emit : Nat → SimpleFiles → CodespanDiagnostic → Except FilesError Unit
  flush : Nat → Except IoError Unit

/-! ## A diagnostic -/

abbrev FileIds := KeyMap FilePath.components Nat

/-- The label of a span whose file has an id. -/
def labelFor (fileIds : FileIds) (style : LabelStyle) (span : Span) (message : String) :
    Option Label :=
  (fileIds.get span.file).map fun fileId =>
    { style, fileId, start := span.start, stop := span.stop, message }

def toCodespan (diag : Diagnostic) (fileIds : FileIds) : CodespanDiagnostic :=
  let severity :=
    match diag.severity with
    | .Error => CodespanSeverity.Error
    | .Warn => .Warning
    | .Info => .Note
    | .Help => .Help
  let primary := (labelFor fileIds .Primary diag.span diag.message).toList
  let origins := diag.origins.filterMap fun origin =>
    labelFor fileIds .Secondary origin.span origin.message
  let related := diag.related.filterMap fun related =>
    labelFor fileIds .Secondary related.span related.message
  { severity
    code := some diag.ruleId.asStr
    message := diag.message
    labels := primary ++ origins ++ related
    notes := diag.suggestions.map fun suggestion =>
      suggestion.message ++ ": replace with `" ++ suggestion.replacement ++ "`" }

/-! ## Files -/

/-- The order in which a hash map with these entries is gone over. -/
structure Iteration where
  order : List (FilePath × String) → List (FilePath × String)
  perm : ∀ entries, (order entries).Perm entries

/-- The body of the loop over the sources. -/
def addFile (known : SimpleFiles × FileIds) (entry : FilePath × String) : SimpleFiles × FileIds :=
  let (id, files) := known.1.add entry.1.text entry.2
  (files, known.2.insert entry.1 id)

def addFiles (order : Iteration) (sources : Sources) : SimpleFiles × FileIds :=
  (order.order sources.entries).foldl addFile (⟨[]⟩, .empty)

/-! ## Printing -/

inductive PrintDiagnosticsError where
  | UnreadableSource (path : FilePath) (source : IoError)
  | Unemitted (source : FilesError)
  | Unflushed (source : IoError)
deriving DecidableEq, Repr

/-- The loop of `collect_sources`. -/
def collectFrom (read : FilePath → Except IoError String) :
    List Diagnostic → Sources → Except PrintDiagnosticsError Sources
  | [], sources => .ok sources
  | diag :: rest, sources =>
    let file := diag.span.file
    if sources.contains file then collectFrom read rest sources
    else
      match read file with
      | .error source => .error (.UnreadableSource file source)
      | .ok source => collectFrom read rest (sources.insert file source)

def collectSources (read : FilePath → Except IoError String) (diagnostics : List Diagnostic) :
    Except PrintDiagnosticsError Sources :=
  collectFrom read diagnostics .empty

/-- What `render` printed, with the files that the labels point into. -/
structure Printed where
  result : Except PrintDiagnosticsError Unit
  files : SimpleFiles
  shown : List CodespanDiagnostic

/-- The loop that prints. -/
def printFrom (stderr : Stderr) (known : SimpleFiles × FileIds) :
    List Diagnostic → List CodespanDiagnostic →
      Except PrintDiagnosticsError Unit × List CodespanDiagnostic
  | [], shown => (.ok (), shown)
  | diag :: rest, shown =>
    let codespan := toCodespan diag known.2
    match stderr.emit shown.length known.1 codespan with
    | .error source => (.error (.Unemitted source), shown)
    | .ok () =>
      match stderr.flush shown.length with
      | .error source => (.error (.Unflushed source), shown ++ [codespan])
      | .ok () => printFrom stderr known rest (shown ++ [codespan])

def render (stderr : Stderr) (read : FilePath → Except IoError String) (order : Iteration)
    (diagnostics : List Diagnostic) : Printed :=
  if diagnostics.isEmpty then { result := .ok (), files := ⟨[]⟩, shown := [] }
  else
    match collectSources read diagnostics with
    | .error e => { result := .error e, files := ⟨[]⟩, shown := [] }
    | .ok sources =>
      let known := addFiles order sources
      let printed := printFrom stderr known diagnostics []
      { result := printed.1, files := known.1, shown := printed.2 }

/-! ## To a string -/

inductive RenderDiagnosticsError where
  | Unemitted (source : FilesError)
  | NotUtf8 (source : String)
deriving DecidableEq, Repr

/-- The error with its cause. -/
def RenderDiagnosticsError.anyhow : RenderDiagnosticsError → Anyhow
  | .Unemitted source => ⟨"failed to emit a diagnostic", [source.message]⟩
  | .NotUtf8 source => ⟨"failed to read the rendered diagnostics as UTF-8", [source]⟩

/-- The loop that fills the output. -/
def emitFrom (terminal : Terminal) (known : SimpleFiles × FileIds) :
    List Diagnostic → ByteArray → Except RenderDiagnosticsError ByteArray
  | [], output => .ok output
  | diag :: rest, output =>
    match terminal.emit known.1 (toCodespan diag known.2) with
    | .error source => .error (.Unemitted source)
    | .ok bytes => emitFrom terminal known rest (output ++ bytes)

def renderToString (terminal : Terminal) (order : Iteration) (diagnostics : List Diagnostic)
    (sources : Sources) : Except RenderDiagnosticsError String :=
  if diagnostics.isEmpty then .ok ""
  else
    match emitFrom terminal (addFiles order sources) diagnostics ByteArray.empty with
    | .error e => .error e
    | .ok output =>
      match String.fromUTF8? output with
      | some text => .ok text
      | none => .error (.NotUtf8 (terminal.utf8Error output))

/-! ## Annotations -/

/-- A place that a diagnostic points out. -/
structure Annotation where
  style : LabelStyle
  span : Span
  message : String
deriving DecidableEq

/-- The primary span, the origins and the related places of a diagnostic. -/
def annotations (diag : Diagnostic) : List Annotation :=
  ⟨.Primary, diag.span, diag.message⟩ ::
    (diag.origins.map fun origin => ⟨.Secondary, origin.span, origin.message⟩) ++
    diag.related.map fun related => ⟨.Secondary, related.span, related.message⟩

/-- `label` marks the place of an annotation, in its file and with its message. -/
def Marks (files : SimpleFiles) (asked : Annotation) (label : Label) : Prop :=
  label.style = asked.style ∧ label.start = asked.span.start ∧
    label.stop = asked.span.stop ∧ label.message = asked.message ∧
    ∃ (path : FilePath) (source : String),
      files.files[label.fileId]? = some (path.text, source) ∧ path.Same asked.span.file

/-- Every annotation of the diagnostic has a label of its own, in order. -/
def Complete (files : SimpleFiles) (diag : Diagnostic) (codespan : CodespanDiagnostic) : Prop :=
  List.Forall₂ (Marks files) (annotations diag) codespan.labels

theorem toCodespan_labels (diag : Diagnostic) (fileIds : FileIds) :
    (toCodespan diag fileIds).labels = (annotations diag).filterMap fun annotation =>
      labelFor fileIds annotation.style annotation.span annotation.message := by
  rw [annotations, List.filterMap_append, List.filterMap_cons, List.filterMap_map,
    List.filterMap_map]
  show (labelFor fileIds .Primary diag.span diag.message).toList ++ _ ++ _ = _
  cases labelFor fileIds .Primary diag.span diag.message <;> rfl

/-- The files that were added, and their ids. -/
structure Knows (entries : List (FilePath × String)) (known : SimpleFiles × FileIds) : Prop where
  stored : ∀ file id, known.2.get file = some id →
    ∃ (path : FilePath) (source : String),
      known.1.files[id]? = some (path.text, source) ∧ path.Same file
  contains : ∀ file, known.2.contains file = true ↔ ∃ entry ∈ entries, entry.1.Same file

theorem knows_addFile {entries : List (FilePath × String)} {known : SimpleFiles × FileIds}
    (h : Knows entries known) (entry : FilePath × String) :
    Knows (entries ++ [entry]) (addFile known entry) where
  stored := by
    intro file id hid
    change (known.2.insert entry.1 known.1.files.length).get file = some id at hid
    change ∃ (path : FilePath) (source : String),
      (known.1.files ++ [(entry.1.text, entry.2)])[id]? = _ ∧ _
    rw [KeyMap.get_insert] at hid
    split at hid
    · rename_i hsame
      obtain rfl := Option.some.inj hid
      exact ⟨entry.1, entry.2, List.getElem?_concat_length, hsame⟩
    · obtain ⟨path, source, hstored, hsame⟩ := h.stored file id hid
      refine ⟨path, source, ?_, hsame⟩
      rw [List.getElem?_append_left (List.getElem?_eq_some_iff.mp hstored).1]
      exact hstored
  contains := by
    intro file
    change (known.2.insert entry.1 known.1.files.length).contains file = true ↔ _
    rw [KeyMap.contains_insert, h.contains file]
    simp only [List.mem_append, List.mem_singleton]
    constructor
    · intro h
      rcases h with hsame | ⟨other, hmem, hsame⟩
      · exact ⟨entry, Or.inr rfl, hsame⟩
      · exact ⟨other, Or.inl hmem, hsame⟩
    · intro h
      obtain ⟨other, hmem | rfl, hsame⟩ := h
      · exact Or.inr ⟨other, hmem, hsame⟩
      · exact Or.inl hsame

theorem knows_foldl {entries rest : List (FilePath × String)} {known : SimpleFiles × FileIds}
    (h : Knows entries known) : Knows (entries ++ rest) (rest.foldl addFile known) := by
  induction rest generalizing entries known with
  | nil => rwa [List.append_nil]
  | cons entry rest ih =>
    have hrest := ih (knows_addFile h entry)
    rwa [List.append_assoc] at hrest

/-- Whatever the order, the files of the sources are known. -/
theorem addFiles_spec (order : Iteration) (sources : Sources) :
    (∀ file id, (addFiles order sources).2.get file = some id →
      ∃ (path : FilePath) (source : String),
        (addFiles order sources).1.files[id]? = some (path.text, source) ∧ path.Same file) ∧
    ∀ file, (addFiles order sources).2.contains file = sources.contains file := by
  have hempty : Knows [] ((⟨[]⟩, .empty) : SimpleFiles × FileIds) := by
    refine ⟨fun file id hid => ?_, fun file => ?_⟩
    · cases hid
    · simp [KeyMap.contains]
  have hknows : Knows ([] ++ order.order sources.entries) (addFiles order sources) :=
    knows_foldl hempty
  refine ⟨hknows.stored, fun file => ?_⟩
  rw [Bool.eq_iff_iff, hknows.contains, KeyMap.contains_iff]
  refine exists_congr fun entry => and_congr_left fun _ => ?_
  exact (order.perm sources.entries).mem_iff

/-- Nothing is left out exactly if `f` is defined everywhere. -/
theorem forall₂_filterMap {α β : Type*} {R : α → β → Prop} {f : α → Option β} {l : List α}
    (h : ∀ a b, f a = some b → R a b) :
    List.Forall₂ R l (l.filterMap f) ↔ ∀ a ∈ l, (f a).isSome = true := by
  constructor
  · exact fun hall => List.filterMap_length_eq_length.mp hall.length_eq.symm
  · intro hsome
    induction l with
    | nil => exact List.Forall₂.nil
    | cons a l ih =>
      obtain ⟨hfirst, hrest⟩ := List.forall_mem_cons.mp hsome
      obtain ⟨b, hb⟩ := Option.isSome_iff_exists.mp hfirst
      rw [List.filterMap_cons_some hb]
      exact List.Forall₂.cons (h a b hb) (ih hrest)

/-- The labels of a diagnostic are complete exactly if the sources hold the files of all its
    annotations. -/
theorem complete_iff (order : Iteration) (sources : Sources) (diag : Diagnostic) :
    Complete (addFiles order sources).1 diag (toCodespan diag (addFiles order sources).2) ↔
      ∀ annotation ∈ annotations diag, sources.contains annotation.span.file = true := by
  obtain ⟨hstored, hcontains⟩ := addFiles_spec order sources
  rw [Complete, toCodespan_labels]
  rw [forall₂_filterMap]
  · refine forall₂_congr fun annotation _ => ?_
    rw [labelFor, Option.isSome_map]
    exact iff_of_eq (congrArg (· = true) (hcontains annotation.span.file))
  · intro annotation label hlabel
    obtain ⟨id, hid, rfl⟩ := Option.map_eq_some_iff.mp hlabel
    exact ⟨rfl, rfl, rfl, rfl, hstored _ _ hid⟩

/-! ## What is printed -/

/-- `render` reads the files of the primary spans. -/
theorem collectFrom_contains {read : FilePath → Except IoError String} {ds : List Diagnostic}
    {sources collected : Sources} (h : collectFrom read ds sources = .ok collected)
    (file : FilePath) : collected.contains file = true ↔
      sources.contains file = true ∨ ∃ d ∈ ds, d.span.file.Same file := by
  induction ds generalizing sources with
  | nil =>
    obtain rfl := Except.ok.inj h
    simp
  | cons d ds ih =>
    unfold collectFrom at h
    simp only [List.exists_mem_cons_iff]
    by_cases hknown : sources.contains d.span.file = true
    · rw [if_pos hknown] at h
      rw [ih h]
      have hself : d.span.file.Same file → sources.contains file = true := by
        intro hsame
        obtain ⟨entry, hmem, hkey⟩ := KeyMap.contains_iff.mp hknown
        exact KeyMap.contains_iff.mpr ⟨entry, hmem, hkey.trans hsame⟩
      constructor
      · exact Or.imp_right Or.inr
      · intro hany
        rcases hany with hin | hsame | hrest
        · exact Or.inl hin
        · exact Or.inl (hself hsame)
        · exact Or.inr hrest
    · rw [if_neg hknown] at h
      cases hread : read d.span.file with
      | error e =>
        rw [hread] at h
        cases h
      | ok source =>
        rw [hread] at h
        rw [ih h, KeyMap.contains_insert]
        exact or_assoc.trans or_left_comm

theorem collectSources_contains {read : FilePath → Except IoError String} {ds : List Diagnostic}
    {collected : Sources} (h : collectSources read ds = .ok collected) (file : FilePath) :
    collected.contains file = true ↔ ∃ d ∈ ds, d.span.file.Same file := by
  rw [collectFrom_contains h]
  simp [KeyMap.contains]

/-- A loop that prints to the end shows every diagnostic. -/
theorem printFrom_ok {stderr : Stderr} {known : SimpleFiles × FileIds} {ds : List Diagnostic}
    {shown : List CodespanDiagnostic} (h : (printFrom stderr known ds shown).1 = .ok ()) :
    (printFrom stderr known ds shown).2 = shown ++ ds.map fun d => toCodespan d known.2 := by
  induction ds generalizing shown with
  | nil => simp [printFrom]
  | cons d ds ih =>
    rw [printFrom] at h ⊢
    cases hemit : stderr.emit shown.length known.1 (toCodespan d known.2) with
    | error e =>
      rw [hemit] at h
      cases h
    | ok u =>
      cases hflush : stderr.flush shown.length with
      | error e =>
        rw [hemit, hflush] at h
        cases h
      | ok v =>
        rw [hemit, hflush] at h
        dsimp only at h ⊢
        rw [ih h, List.append_assoc]
        rfl

/-- What `render` prints is complete exactly if every annotation lies in the file of some primary
    span. -/
theorem render_complete_iff {stderr : Stderr} {read : FilePath → Except IoError String}
    {order : Iteration} {ds : List Diagnostic} (h : (render stderr read order ds).result = .ok ()) :
    List.Forall₂ (Complete (render stderr read order ds).files) ds
        (render stderr read order ds).shown ↔
      ∀ d ∈ ds, ∀ annotation ∈ annotations d,
        ∃ other ∈ ds, other.span.file.Same annotation.span.file := by
  cases ds with
  | nil =>
    simp [render]
  | cons first rest =>
    simp only [render, List.isEmpty_cons, Bool.false_eq_true, if_false] at h ⊢
    cases hcollect : collectSources read (first :: rest) with
    | error e =>
      rw [hcollect] at h
      cases h
    | ok sources =>
      rw [hcollect] at h
      dsimp only at h ⊢
      rw [printFrom_ok h, List.nil_append, List.forall₂_map_right_iff, List.forall₂_same]
      refine forall₂_congr fun d _ => ?_
      rw [complete_iff]
      exact forall₂_congr fun annotation _ => collectSources_contains hcollect _

end Reporting

end Stiles
