import Stiles.Check.Run
import Stiles.CustomLints.Load

/-
  What a load of the project's lints does, over any answers of the machine.

  * `commandsIn_loadResolved`: the commands of one source.
  * `loadResolved_ok`: what a source that loads gives, and what is loaded of it.
  * `load_run`: a whole load. It calls nothing of a plugin but behind a handshake, it runs the
    commands of its sources in order, and it loads what `CustomLints.load` loads of the libraries.
-/

namespace Stiles

namespace LoadLints

open Journal (Prog)
open Resolve (Locking Contents Resolved)

variable {D : DecorationTypes}

/-! ## What a library gives -/

/-- A library as it is found when it is opened. -/
def libraryAt (host : AbiIdentity) (path : FilePath) (opened : AnyhowResult (Image D)) :
    Library D where
  path
  exports :=
    match withContext ("failed to open " ++ path.text) opened with
    | .error e => .error e
    | .ok image =>
      match image.declaration with
      | .error cause =>
        .error ⟨"the library is not a stiles lint plugin; export its lints with " ++
          "stiles_plugin::export_lints!", [cause]⟩
      | .ok static => (readDeclaration host image static).2

theorem openLibrary_libraryAt (host : AbiIdentity) (path : FilePath)
    (opened : AnyhowResult (Image D)) :
    (openLibrary host path opened).2 = Stiles.loadLibrary (libraryAt host path opened) := by
  cases opened with
  | error e => rfl
  | ok image =>
    cases hdeclaration : image.declaration with
    | error cause =>
      have hexports : (libraryAt host path (.ok image)).exports =
          .error ⟨"the library is not a stiles lint plugin; export its lints with " ++
            "stiles_plugin::export_lints!", [cause]⟩ := by
        show (match image.declaration with
          | .error cause => _
          | .ok static => _) = _
        rw [hdeclaration]
      rw [Stiles.loadLibrary, hexports]
      simp only [openLibrary, withContext_ok, hdeclaration]
    | ok static =>
      rw [openLibrary_result host path hdeclaration]
      congr 1
      show Library.mk path _ = Library.mk path (match image.declaration with
        | .error cause => _
        | .ok static => _)
      rw [hdeclaration]

/-- The handshake with a library passed, and `load` handed over lints that each declare a rule. -/
def Completes (machine : Machine D) (host : AbiIdentity) (j : List Asked) (library : Library D) :
    Prop :=
  ∃ before image static exported, before <+: j ∧ machine.opened before library.path = .ok image ∧
    image.declaration = .ok static ∧ validate host static.identity = .ok () ∧
    image.call static.load = .ok exported ∧ library.exports = .ok exported ∧ exported ≠ [] ∧
    ∀ lint ∈ exported, lint.rules ≠ []

/-- A library that is loaded completed the handshake. -/
theorem completes_of_ok {machine : Machine D} {host : AbiIdentity} {before j : List Asked}
    {path : FilePath} {lints : List (LoadedLint D)} (hbefore : before <+: j)
    (h : Stiles.loadLibrary (libraryAt host path (machine.opened before path)) = .ok lints) :
    Completes machine host j (libraryAt host path (machine.opened before path)) := by
  obtain ⟨exported, hexports, hne, hrules, -⟩ := loadLibrary_ok_iff.mp h
  cases hopened : machine.opened before path with
  | error e =>
    rw [hopened] at hexports
    cases hexports
  | ok image =>
    rw [hopened] at hexports
    cases hdeclaration : image.declaration with
    | error cause =>
      change (match image.declaration with
        | .error cause => _
        | .ok static => _) = _ at hexports
      rw [hdeclaration] at hexports
      cases hexports
    | ok static =>
      have hread := hexports
      change (match image.declaration with
        | .error cause => _
        | .ok static => _) = _ at hread
      rw [hdeclaration] at hread
      rcases readDeclaration_cases host image static with ⟨-, e, -, herror, -⟩ |
        ⟨hvalid, -, hresult⟩
      · exact absurd (hread.symm.trans herror) nofun
      · exact ⟨before, image, static, exported, hbefore, hopened, hdeclaration, hvalid,
          mapError_eq_ok.mp (hresult.symm.trans hread), hexports, hne, hrules⟩

/-! ## What the journal holds -/

def Asked.command? : Asked → Option Command
  | .command asked => some asked
  | .touch _ _ => none

/-- The commands of a journal, in order. -/
def commandsIn (j : List Asked) : List Command := j.filterMap Asked.command?

theorem commandsIn_append (j j' : List Asked) :
    commandsIn (j ++ j') = commandsIn j ++ commandsIn j' :=
  List.filterMap_append

theorem commandsIn_touches (path : FilePath) (touched : List Touch) :
    commandsIn (touched.map (.touch path)) = [] := by
  unfold commandsIn
  rw [List.filterMap_map]
  exact List.filterMap_eq_nil_iff.mpr fun _ _ => rfl

section

variable {machine : Machine D} {host : AbiIdentity} {stilesSource : Option FilePath}

/-- Every touch of a library is one of `openLibrary`. -/
def Touches (machine : Machine D) (host : AbiIdentity) (j : List Asked) : Prop :=
  ∀ path touch, Asked.touch path touch ∈ j →
    ∃ before, before <+: j ∧ touch ∈ (openLibrary host path (machine.opened before path)).1

theorem Touches.append {j added : List Asked} (h : Touches machine host j)
    (hadded : ∀ path touch, Asked.touch path touch ∈ added →
      touch ∈ (openLibrary host path (machine.opened j path)).1) :
    Touches machine host (j ++ added) := by
  intro path touch hmem
  rcases List.mem_append.mp hmem with hmem | hmem
  · obtain ⟨before, hbefore, htouch⟩ := h path touch hmem
    exact ⟨before, hbefore.trans (List.prefix_append _ _), htouch⟩
  · exact ⟨j, List.prefix_append _ _, hadded path touch hmem⟩

/-- A step that touches no library. -/
theorem touches_tell {α : Type*} {told : List Asked → List Asked × Except Anyhow α}
    (h : ∀ j path touch, Asked.touch path touch ∉ (told j).1) :
    Journal.Triple (Touches machine host) (Prog.tell told) fun _ => Touches machine host :=
  Journal.Triple.tell fun j hj => hj.append fun path touch hmem => absurd hmem (h j path touch)

theorem touches_loadLibraries (paths : List FilePath) :
    Journal.Triple (Touches machine host) (loadLibraries machine host paths)
      fun _ => Touches machine host := by
  refine Journal.Triple.each fun path _ => Journal.Triple.mapError ?_
  intro j hj
  refine hj.append fun other touch hmem => ?_
  obtain ⟨t, ht, heq⟩ := List.mem_map.mp hmem
  cases heq
  exact ht

theorem touches_build (directory : FilePath) (locking : Locking) :
    Journal.Triple (Touches machine host) (build machine directory locking stilesSource)
      fun _ => Touches machine host := by
  have hpatches : Journal.Triple (Touches machine host)
      (patchesFor machine directory stilesSource) fun _ => Touches machine host := by
    cases stilesSource with
    | none => exact touches_tell fun _ _ _ => List.not_mem_nil
    | some source =>
      refine Journal.Triple.mapError (Journal.Triple.andThen
        (touches_tell fun _ _ _ => ?_) (fun output => touches_tell fun _ _ _ => List.not_mem_nil)
        fun e j hj => hj)
      exact fun hmem => nomatch List.mem_singleton.mp hmem
  refine Journal.Triple.andThen hpatches (fun patches => ?_) fun e j hj => hj
  refine Journal.Triple.andThen (touches_tell fun _ _ _ => ?_)
    (fun output => touches_tell fun _ _ _ => List.not_mem_nil) fun e j hj => hj
  exact fun hmem => nomatch List.mem_singleton.mp hmem

theorem touches_loadResolved (source : Resolved) :
    Journal.Triple (Touches machine host) (loadResolved machine host stilesSource source)
      fun _ => Touches machine host := by
  unfold loadResolved
  cases source.contents with
  | Sources locking =>
    exact Journal.Triple.mapError (Journal.Triple.andThen (M := fun _ => Touches machine host)
      (Journal.Triple.mapError (touches_build _ _)) (fun paths => touches_loadLibraries paths)
      fun e j hj => hj)
  | Libraries =>
    exact Journal.Triple.mapError (Journal.Triple.andThen (M := fun _ => Touches machine host)
      (touches_tell fun _ _ _ => List.not_mem_nil) (fun paths => touches_loadLibraries paths)
      fun e j hj => hj)

/-- The commands that a source asks for, if none of them fails. -/
def Commands (machine : Machine D) (stilesSource : Option FilePath) (source : Resolved)
    (asked : List Command) : Prop :=
  match source.contents, stilesSource with
  | .Libraries, _ => asked = []
  | .Sources locking, none => asked = [⟨buildArguments locking none [], source.directory⟩]
  | .Sources locking, some _ => ∃ before output patches,
      machine.output before (metadataCommand source.directory) = .ok output ∧
      readPatches machine output = .ok patches ∧
      asked = [metadataCommand source.directory,
        ⟨buildArguments locking stilesSource patches, source.directory⟩]

/-- One command, and what is made of its output. -/
theorem commandsIn_ask {α : Type*} (command : Command)
    (answer : List Asked → AnyhowResult CommandOutput)
    (made : CommandOutput → List Asked → AnyhowResult α) (j : List Asked) :
    commandsIn (((Prog.ask (.command command) answer).andThen
      fun output => Prog.look (made output)) j).2 = commandsIn j ++ [command] := by
  have hasked : ((Prog.ask (.command command) answer) j).2 = j ++ [.command command] := rfl
  cases h : ((Prog.ask (.command command) answer) j).1 with
  | error e =>
    rw [Prog.andThen_error h, hasked, commandsIn_append]
    rfl
  | ok output =>
    rw [Prog.andThen_ok h, hasked]
    show commandsIn ((j ++ [.command command]) ++ []) = _
    rw [List.append_nil, commandsIn_append]
    rfl

theorem ask_ok {α : Type*} {command : Command} {answer : List Asked → AnyhowResult CommandOutput}
    {made : CommandOutput → List Asked → AnyhowResult α} {j : List Asked} {a : α}
    (h : (((Prog.ask (.command command) answer).andThen
      fun output => Prog.look (made output)) j).1 = .ok a) :
    ∃ output, answer j = .ok output ∧ made output (j ++ [.command command]) = .ok a ∧
      (((Prog.ask (.command command) answer).andThen
        fun output => Prog.look (made output)) j).2 = j ++ [.command command] := by
  cases hanswer : answer j with
  | error e =>
    have hfirst : ((Prog.ask (.command command) answer) j).1 = .error e := hanswer
    rw [Prog.andThen_error hfirst] at h
    cases h
  | ok output =>
    have hfirst : ((Prog.ask (.command command) answer) j).1 = .ok output := hanswer
    rw [Prog.andThen_ok hfirst] at h ⊢
    exact ⟨output, rfl, h, List.append_nil _⟩

theorem loadPatches_ok {directory : FilePath} {j : List Asked} {patches : List StilesPatch}
    (h : (loadPatches machine directory j).1 = .ok patches) :
    ∃ output, machine.output j (metadataCommand directory) = .ok output ∧
      readPatches machine output = .ok patches := by
  obtain ⟨output, houtput, hread, -⟩ := ask_ok h
  exact ⟨output, withContext_eq_ok.mp houtput, hread⟩

/-- A build asks for all of its commands, or for the first of two if that one fails. -/
theorem commandsIn_build (machine : Machine D) (stilesSource : Option FilePath)
    (directory : FilePath) (locking : Locking) (j : List Asked) :
    let ran := build machine directory locking stilesSource j
    ∃ asked, commandsIn ran.2 = commandsIn j ++ asked ∧
      (Commands machine stilesSource ⟨directory, .Sources locking⟩ asked ∨
        stilesSource ≠ none ∧ asked = [metadataCommand directory] ∧ ∃ e, ran.1 = .error e) := by
  intro ran
  cases stilesSource with
  | none =>
    have hfirst : (patchesFor machine directory none j).1 = .ok [] := rfl
    have hran : ran = _ := Prog.andThen_ok hfirst
    refine ⟨[⟨buildArguments locking none [], directory⟩], ?_, Or.inl rfl⟩
    rw [hran]
    refine (commandsIn_ask _ _ _ _).trans ?_
    show commandsIn (j ++ []) ++ _ = _
    rw [List.append_nil]
  | some source =>
    have hcommands : commandsIn (patchesFor machine directory (some source) j).2 =
        commandsIn j ++ [metadataCommand directory] := commandsIn_ask _ _ _ _
    cases hfirst : (patchesFor machine directory (some source) j).1 with
    | error e =>
      have hran : ran = _ := Prog.andThen_error hfirst
      rw [hran]
      exact ⟨_, hcommands, Or.inr ⟨nofun, rfl, e, rfl⟩⟩
    | ok patches =>
      have hran : ran = _ := Prog.andThen_ok hfirst
      obtain ⟨output, houtput, hread⟩ := loadPatches_ok (mapError_eq_ok.mp hfirst)
      refine ⟨[metadataCommand directory, _], ?_,
        Or.inl ⟨j, output, patches, houtput, hread, rfl⟩⟩
      rw [hran]
      refine (commandsIn_ask _ _ _ _).trans ?_
      rw [hcommands, List.append_assoc]
      rfl

theorem commandsIn_loadLibraries (paths : List FilePath) (j : List Asked) :
    commandsIn (loadLibraries machine host paths j).2 = commandsIn j := by
  have hkeeps : Journal.Triple (fun j' => commandsIn j' = commandsIn j)
      (loadLibraries machine host paths) fun _ j' => commandsIn j' = commandsIn j := by
    refine Journal.Triple.each fun path _ => Journal.Triple.mapError fun j' hj' => ?_
    show commandsIn (j' ++ (openLibrary host path (machine.opened j' path)).1.map _) = _
    rw [commandsIn_append, commandsIn_touches, List.append_nil, hj']
  exact hkeeps j rfl

/-- Libraries that are loaded behind something ask for no command. -/
theorem commandsIn_andThen (machine : Machine D) (host : AbiIdentity)
    (p : Prog Asked Anyhow (List FilePath)) (j : List Asked) :
    let ran := p.andThen (loadLibraries machine host) j
    commandsIn ran.2 = commandsIn (p j).2 ∧ ∀ e, (p j).1 = .error e → ran.1 = .error e := by
  intro ran
  cases h : (p j).1 with
  | error e =>
    have hran : ran = _ := Prog.andThen_error h
    rw [hran]
    exact ⟨rfl, fun e' he' => congrArg Except.error (Except.error.inj he')⟩
  | ok paths =>
    have hran : ran = _ := Prog.andThen_ok h
    rw [hran]
    exact ⟨commandsIn_loadLibraries paths _, nofun⟩

theorem commandsIn_loadResolved (machine : Machine D) (host : AbiIdentity)
    (stilesSource : Option FilePath) (source : Resolved) (j : List Asked) :
    let ran := loadResolved machine host stilesSource source j
    ∃ asked, commandsIn ran.2 = commandsIn j ++ asked ∧
      (Commands machine stilesSource source asked ∨
        stilesSource ≠ none ∧ asked = [metadataCommand source.directory] ∧
          ∃ e, ran.1 = .error e) := by
  intro ran
  obtain ⟨directory, contents⟩ := source
  cases contents with
  | Sources locking =>
    obtain ⟨asked, hcommands, hasked⟩ := commandsIn_build machine stilesSource directory locking j
    obtain ⟨hsame, herror⟩ := commandsIn_andThen machine host
      (context ("failed to build the lints at " ++ directory.text)
        (build machine directory locking stilesSource)) j
    refine ⟨asked, hsame.trans hcommands, hasked.imp_right ?_⟩
    rintro ⟨hsource, rfl, e, he⟩
    exact ⟨hsource, rfl, _, context_error (herror _ (context_error he))⟩
  | Libraries =>
    obtain ⟨hsame, -⟩ := commandsIn_andThen machine host
      (Prog.look (prebuiltLibraries machine directory)) j
    refine ⟨[], ?_, Or.inl rfl⟩
    rw [List.append_nil]
    refine hsame.trans ?_
    show commandsIn (j ++ []) = _
    rw [List.append_nil]

/-! ## What a load that succeeds loaded -/

/-- What a source gives to open. -/
def Provides (machine : Machine D) (source : Resolved) (j : List Asked) (paths : List FilePath) :
    Prop :=
  match source.contents with
  | .Libraries => ∃ before, before <+: j ∧
      prebuiltLibraries machine source.directory before = .ok paths
  | .Sources _ => ∃ before command output, before ++ [.command command] <+: j ∧
      command.directory = source.directory ∧ machine.output before command = .ok output ∧
      readBuild machine source.directory (before ++ [.command command]) output = .ok paths

theorem Provides.mono {source : Resolved} {j j' : List Asked} {paths : List FilePath}
    (h : Provides machine source j paths) (hj : j <+: j') : Provides machine source j' paths := by
  obtain ⟨directory, contents⟩ := source
  cases contents with
  | Libraries =>
    obtain ⟨before, hbefore, hpaths⟩ := h
    exact ⟨before, hbefore.trans hj, hpaths⟩
  | Sources locking =>
    obtain ⟨before, command, output, hbefore, hrest⟩ := h
    exact ⟨before, command, output, hbefore.trans hj, hrest⟩

theorem Completes.mono {library : Library D} {j j' : List Asked}
    (h : Completes machine host j library) (hj : j <+: j') : Completes machine host j' library := by
  obtain ⟨before, image, static, exported, hbefore, hrest⟩ := h
  exact ⟨before, image, static, exported, hbefore.trans hj, hrest⟩

theorem grows_loadLibrary (machine : Machine D) (host : AbiIdentity) (path : FilePath) :
    Journal.Grows (context ("failed to load " ++ path.text) (loadLibrary machine host path)) :=
  (Journal.Grows.tell _).mapError

/-- The libraries that a load of paths opens, one after the other. -/
theorem libraries_of_runs {paths : List FilePath} {parts : List (List (LoadedLint D))}
    {j j' : List Asked}
    (h : Journal.Runs (fun path => context ("failed to load " ++ path.text)
      (loadLibrary machine host path)) paths parts j j') :
    ∃ found : List (Library D), found.map Library.path = paths ∧
      List.Forall₂ (fun library part => Stiles.loadLibrary library = .ok part) found parts ∧
      ∀ library ∈ found, Completes machine host j' library := by
  induction h with
  | nil j => exact ⟨[], rfl, .nil, nofun⟩
  | @cons path paths part parts j j₁ j' first rest ih =>
    obtain ⟨found, hpaths, hloaded, hcompletes⟩ := ih
    have hstep : loadLibrary machine host path j = (.ok part, j₁) := context_ok.mp first
    have hopened := openLibrary_libraryAt host path (machine.opened j path)
    rw [show (openLibrary host path (machine.opened j path)).2 = .ok part from
      congrArg Prod.fst hstep] at hopened
    have hrest := rest.grows (grows_loadLibrary machine host)
    have hfirst := grows_loadLibrary machine host path j
    rw [first] at hfirst
    have hgrows : j <+: j' := List.IsPrefix.trans hfirst hrest
    refine ⟨libraryAt host path (machine.opened j path) :: found, ?_, .cons hopened.symm hloaded, ?_⟩
    · rw [List.map_cons, hpaths]
      rfl
    · refine List.forall_mem_cons.mpr ⟨?_, hcompletes⟩
      exact completes_of_ok hgrows hopened.symm

/-- Libraries that load one by one load together. -/
theorem loadLibraries_of_forall₂ {found : List (Library D)} {parts : List (List (LoadedLint D))}
    (h : List.Forall₂ (fun library part => Stiles.loadLibrary library = .ok part) found parts) :
    Stiles.loadLibraries found = .ok parts.flatten := by
  induction h with
  | nil => rfl
  | cons hfirst _ ih =>
    rw [Stiles.loadLibraries, hfirst]
    show (Stiles.loadLibraries _).map _ = _
    rw [ih]
    rfl

theorem loadLibraries_append {found others : List (Library D)} {lints rest : List (LoadedLint D)}
    (h : Stiles.loadLibraries found = .ok lints) (hothers : Stiles.loadLibraries others = .ok rest) :
    Stiles.loadLibraries (found ++ others) = .ok (lints ++ rest) := by
  induction found generalizing lints with
  | nil =>
    rw [← Except.ok.inj h]
    exact hothers
  | cons library found ih =>
    rw [Stiles.loadLibraries] at h
    rw [List.cons_append, Stiles.loadLibraries]
    cases hlibrary : withContext ("failed to load " ++ library.path.text)
        (Stiles.loadLibrary library) with
    | error e =>
      rw [hlibrary] at h
      cases h
    | ok loaded =>
      rw [hlibrary] at h
      obtain ⟨after, hafter, rfl⟩ := map_eq_ok.mp h
      show (Stiles.loadLibraries _).map _ = _
      rw [ih hafter, List.append_assoc]
      rfl

/-- What is loaded of a source that gives its libraries. -/
def LoadsFrom (machine : Machine D) (host : AbiIdentity) (source : Resolved) (j : List Asked)
    (found : List (Library D)) : Prop :=
  found ≠ [] ∧ Provides machine source j (found.map Library.path) ∧
    ∀ library ∈ found, Completes machine host j library

theorem readBuild_ne {directory : FilePath} {j : List Asked} {output : CommandOutput}
    {paths : List FilePath} (h : readBuild machine directory j output = .ok paths) :
    paths ≠ [] := by
  unfold readBuild at h
  split at h
  · cases h
  · obtain ⟨stdout, -, hpaths⟩ := bind_ok_iff.mp h
    obtain ⟨artifacts, -, hvalues⟩ := bind_ok_iff.mp hpaths
    split at hvalues
    · cases hvalues
    · rename_i hentries
      intro hnil
      rw [← Except.ok.inj hvalues] at hnil
      have hlength := congrArg List.length hnil
      rw [KeyMap.values, List.length_map, KeyMap.sorted, (Keyed.sortBy_perm _ _).length_eq] at hlength
      exact hentries (List.length_eq_zero_iff.mp hlength)

theorem prebuiltLibraries_ne {directory : FilePath} {j : List Asked} {paths : List FilePath}
    (h : prebuiltLibraries machine directory j = .ok paths) : paths ≠ [] := by
  obtain ⟨listed, -, hpaths⟩ := bind_ok_iff.mp h
  split at hpaths
  · cases hpaths
  · rename_i hempty
    rw [← Except.ok.inj hpaths]
    simpa using hempty

theorem build_ok {directory : FilePath} {locking : Locking} {j j' : List Asked}
    {paths : List FilePath}
    (h : build machine directory locking stilesSource j = (.ok paths, j')) :
    ∃ before command output, before ++ [.command command] = j' ∧ command.directory = directory ∧
      machine.output before command = .ok output ∧
      readBuild machine directory (before ++ [.command command]) output = .ok paths := by
  cases hpatches : (patchesFor machine directory stilesSource j).1 with
  | error e =>
    rw [build, Prog.andThen_error hpatches] at h
    cases h
  | ok patches =>
    rw [build, Prog.andThen_ok hpatches] at h
    obtain ⟨output, houtput, hread, hend⟩ := ask_ok (congrArg Prod.fst h)
    exact ⟨_, _, output, hend.symm.trans (congrArg Prod.snd h), rfl, withContext_eq_ok.mp houtput,
      hread⟩

/-- The paths that are opened behind a look for them. -/
theorem loaded_of_andThen {p : Prog Asked Anyhow (List FilePath)} {j j' : List Asked}
    {part : List (LoadedLint D)}
    (h : p.andThen (loadLibraries machine host) j = (.ok part, j')) :
    ∃ found : List (Library D), p j = (.ok (found.map Library.path), (p j).2) ∧ (p j).2 <+: j' ∧
      (∀ library ∈ found, Completes machine host j' library) ∧
      Stiles.loadLibraries found = .ok part := by
  cases hpaths : (p j).1 with
  | error e =>
    rw [Prog.andThen_error hpaths] at h
    cases h
  | ok paths =>
    rw [Prog.andThen_ok hpaths] at h
    have hgrows : (p j).2 <+: (loadLibraries machine host paths (p j).2).2 :=
      Journal.Grows.each (grows_loadLibrary machine host) paths (p j).2
    rw [h] at hgrows
    obtain ⟨parts, hruns, rfl⟩ := Journal.each_ok h
    obtain ⟨found, rfl, hloaded, hcompletes⟩ := libraries_of_runs hruns
    refine ⟨found, ?_, hgrows, hcompletes, loadLibraries_of_forall₂ hloaded⟩
    rw [← hpaths]

/-- What a source that loads gives, and what is loaded of it. -/
theorem loadResolved_ok {source : Resolved} {j j' : List Asked} {part : List (LoadedLint D)}
    (h : loadResolved machine host stilesSource source j = (.ok part, j')) :
    ∃ found, LoadsFrom machine host source j' found ∧ Stiles.loadLibraries found = .ok part := by
  obtain ⟨directory, contents⟩ := source
  cases contents with
  | Sources locking =>
    have hload : loadSources machine directory host locking stilesSource j = (.ok part, j') :=
      context_ok.mp h
    obtain ⟨found, hfound, hgrows, hcompletes, hpart⟩ := loaded_of_andThen hload
    have hbuild := context_ok.mp hfound
    obtain ⟨before, command, output, hend, hdirectory, houtput, hread⟩ := build_ok hbuild
    refine ⟨found, ⟨?_, ⟨before, command, output, ?_, hdirectory, houtput, hread⟩, hcompletes⟩,
      hpart⟩
    · rintro rfl
      exact readBuild_ne hread rfl
    · rw [hend]
      exact hgrows
  | Libraries =>
    have hload : loadPrebuilt machine directory host j = (.ok part, j') := context_ok.mp h
    obtain ⟨found, hfound, hgrows, hcompletes, hpart⟩ := loaded_of_andThen hload
    have hlisted : prebuiltLibraries machine directory j = .ok (found.map Library.path) :=
      congrArg Prod.fst hfound
    refine ⟨found, ⟨?_, ⟨j, ?_, hlisted⟩, hcompletes⟩, hpart⟩
    · rintro rfl
      exact prebuiltLibraries_ne hlisted rfl
    · exact (List.prefix_append _ _).trans hgrows

theorem grows_loadResolved (machine : Machine D) (host : AbiIdentity)
    (stilesSource : Option FilePath) (source : Resolved) :
    Journal.Grows (loadResolved machine host stilesSource source) := by
  have hlibraries : ∀ paths, Journal.Grows (loadLibraries machine host paths) :=
    fun paths => Journal.Grows.each (grows_loadLibrary machine host) paths
  obtain ⟨directory, contents⟩ := source
  cases contents with
  | Libraries =>
    exact ((Journal.Grows.tell _).andThen hlibraries).mapError
  | Sources locking =>
    have hpatches : Journal.Grows (patchesFor machine directory stilesSource) := by
      cases stilesSource with
      | none => exact Journal.Grows.tell _
      | some source =>
        exact ((Journal.Grows.tell _).andThen fun output => Journal.Grows.tell _).mapError
    have hbuild : Journal.Grows (build machine directory locking stilesSource) :=
      hpatches.andThen fun patches =>
        (Journal.Grows.tell _).andThen fun output => Journal.Grows.tell _
    exact (hbuild.mapError.andThen hlibraries).mapError

/-! ## All sources -/

/-- What is loaded of sources that load one after the other. -/
theorem loaded_of_runs {sources : List Resolved} {parts : List (List (LoadedLint D))}
    {j j' : List Asked}
    (h : Journal.Runs (loadResolved machine host stilesSource) sources parts j j') :
    ∃ loaded : List (List (Library D)),
      List.Forall₂ (fun source found => LoadsFrom machine host source j' found) sources loaded ∧
      Stiles.loadLibraries loaded.flatten = .ok parts.flatten := by
  induction h with
  | nil j => exact ⟨[], .nil, rfl⟩
  | @cons source sources part parts j j₁ j' first rest ih =>
    obtain ⟨loaded, hall, hparts⟩ := ih
    obtain ⟨found, ⟨hne, hprovides, hcompletes⟩, hpart⟩ := loadResolved_ok first
    have hgrows := rest.grows (grows_loadResolved machine host stilesSource)
    refine ⟨found :: loaded, .cons ⟨hne, hprovides.mono hgrows, fun library hlibrary => ?_⟩ hall,
      loadLibraries_append hpart hparts⟩
    exact (hcompletes library hlibrary).mono hgrows

/-- The commands of sources that load one after the other. -/
theorem commands_of_runs {sources : List Resolved} {parts : List (List (LoadedLint D))}
    {j j' : List Asked}
    (h : Journal.Runs (loadResolved machine host stilesSource) sources parts j j') :
    ∃ asked, List.Forall₂ (Commands machine stilesSource) sources asked ∧
      commandsIn j' = commandsIn j ++ asked.flatten := by
  induction h with
  | nil j => exact ⟨[], .nil, (List.append_nil _).symm⟩
  | @cons source sources part parts j j₁ j' first rest ih =>
    obtain ⟨asked, hall, hcommands⟩ := ih
    obtain ⟨own, hown, hsource⟩ := commandsIn_loadResolved machine host stilesSource source j
    rw [first] at hown hsource
    refine ⟨own :: asked, .cons (hsource.resolve_right ?_) hall, ?_⟩
    · rintro ⟨-, -, e, herror⟩
      cases herror
    · rw [hcommands, hown, List.flatten_cons, List.append_assoc]

end

/-- `--locked` is for a git source that no local stiles is patched into. -/
theorem locked_iff (locking : Locking) (stilesSource : Option FilePath)
    (patches : List StilesPatch) :
    "--locked" ∈ buildArguments locking stilesSource patches ↔
      locking = .Locked ∧ stilesSource = none := by
  have hconfig : ∀ (patch : StilesPatch) source, "--locked" ≠ patch.config source := by
    intro patch source h
    have hfirst := congrArg (fun text : String => text.toList.head?) h
    unfold StilesPatch.config at hfirst
    cases htable : patch.table with
    | CratesIo =>
      simp only [htable, String.toList_append] at hfirst
      simp at hfirst
    | Git url =>
      simp only [htable, String.toList_append] at hfirst
      simp at hfirst
  have hpatches : ∀ source,
      "--locked" ∉ patches.flatMap fun patch => ["--config", patch.config source] := by
    intro source h
    obtain ⟨patch, -, hmem⟩ := List.mem_flatMap.mp h
    simp [hconfig patch source] at hmem
  unfold buildArguments
  cases locking <;> cases stilesSource <;> simp [hpatches]

/-- A command of a source asks for its metadata, where a local stiles is patched in, or builds it.
    A build is locked exactly if the source is a git source and no stiles is patched in. -/
def CommandOf (stilesSource : Option FilePath) (source : Resolved) (command : Command) : Prop :=
  command.directory = source.directory ∧
    (stilesSource ≠ none ∧ command = metadataCommand source.directory ∨
      ∃ locking patches, source.contents = .Sources locking ∧
        command.arguments = buildArguments locking stilesSource patches ∧
        ("--locked" ∈ command.arguments ↔ locking = .Locked ∧ stilesSource = none))

theorem commandOf_of_mem {machine : Machine D} {stilesSource : Option FilePath} {source : Resolved}
    {asked : List Command} (h : Commands machine stilesSource source asked) {command : Command}
    (hmem : command ∈ asked) : CommandOf stilesSource source command := by
  obtain ⟨directory, contents⟩ := source
  cases contents with
  | Libraries =>
    rw [show asked = [] from h] at hmem
    cases hmem
  | Sources locking =>
    cases stilesSource with
    | none =>
      rw [show asked = [_] from h] at hmem
      rw [List.mem_singleton.mp hmem]
      exact ⟨rfl, Or.inr ⟨locking, [], rfl, rfl, locked_iff locking none []⟩⟩
    | some path =>
      obtain ⟨before, output, patches, -, -, rfl⟩ := h
      rcases List.mem_pair.mp hmem with rfl | rfl
      · exact ⟨rfl, Or.inl ⟨nofun, rfl⟩⟩
      · exact ⟨rfl, Or.inr ⟨locking, patches, rfl, rfl, locked_iff locking _ patches⟩⟩

/-- The sources are those of a table, and a build is locked exactly if it is of a git source and no
    stiles is patched in. -/
theorem locked_of_configured {tools : Resolve.Tools} {os : Resolve.Os} {root project : FilePath}
    {tag : AbiTag} {seen : List FilePath} {files : Files}
    {entries : List (Resolve.LintSource × Resolve.World)} {stilesSource : Option FilePath}
    {sources : List Resolved} {source : Resolved} {command : Command}
    (h : (Resolve.configuredSources tools os root project tag seen entries files).value
      = .ok sources) (hmem : source ∈ sources) (hcommand : CommandOf stilesSource source command) :
    ∃ configured ∈ entries.zip sources, configured.2 = source ∧
      ("--locked" ∈ command.arguments ↔
        (∃ git, configured.1.1 = .Git git) ∧ stilesSource = none) := by
  obtain ⟨hlength, hgives⟩ := List.forall₂_iff_zip.mp (Resolve.configuredSources_gives h)
  rw [← List.map_snd_zip hlength.ge] at hmem
  obtain ⟨⟨⟨entry, world⟩, source'⟩, hzip, rfl⟩ := List.mem_map.mp hmem
  refine ⟨_, hzip, rfl, ?_⟩
  have hgives : entry.Gives source'.contents := hgives hzip
  obtain ⟨-, ⟨hsource, rfl⟩ | ⟨locking, patches, hcontents, -, hlocked⟩⟩ := hcommand
  · refine iff_of_false ?_ fun h => hsource h.2
    simp [metadataCommand]
  · rw [hlocked]
    refine and_congr_left fun _ => ?_
    dsimp only at hcontents
    rw [hcontents] at hgives
    cases entry with
    | Path path =>
      have hunlocked : locking = .Unlocked := Contents.Sources.inj hgives
      simp [hunlocked]
    | Git git =>
      have hlocking : locking = .Locked := by
        rcases hgives with h | h
        · cases h
        · exact Contents.Sources.inj h
      simp [hlocking]

/-- Behind the loop over the sources a load only looks for shared rules. -/
theorem load_ok_iff (machine : Machine D) (host : AbiIdentity) (stilesSource : Option FilePath)
    (sources : List Resolved) :
    let ran := load machine host stilesSource (.ok sources) []
    let each := Prog.each (loadResolved machine host stilesSource) sources []
    ran.2 = each.2 ∧ ∀ custom, ran.1 = .ok custom ↔
      each.1 = .ok custom.lints ∧ refuseSharedRules custom.lints = .ok () := by
  intro ran each
  have hran : ran = (Prog.each (loadResolved machine host stilesSource) sources).andThen
      (fun lints => Prog.lift (withContext "failed to check the rules that the lints declare"
        ((refuseSharedRules lints).map fun _ => { lints }))) [] := rfl
  cases heach : each.1 with
  | error e =>
    rw [hran, Prog.andThen_error heach]
    exact ⟨rfl, fun custom => by simp⟩
  | ok lints =>
    rw [hran, Prog.andThen_ok heach]
    refine ⟨List.append_nil _, fun custom => ?_⟩
    show withContext _ ((refuseSharedRules lints).map _) = .ok custom ↔ _
    rw [withContext_eq_ok, map_eq_ok, Except.ok.injEq]
    constructor
    · rintro ⟨u, hrefused, rfl⟩
      exact ⟨rfl, hrefused⟩
    · rintro ⟨rfl, hrefused⟩
      exact ⟨(), hrefused, rfl⟩

/-- The commands of a load are those of its sources, in order, up to the first that fails. -/
theorem commands_of_load (machine : Machine D) (host : AbiIdentity)
    (stilesSource : Option FilePath) (sources : List Resolved) :
    let ran := load machine host stilesSource (.ok sources) []
    ∃ done left asked last, sources = done ++ left ∧
      List.Forall₂ (Commands machine stilesSource) done asked ∧
      commandsIn ran.2 = asked.flatten ++ last ∧ (left = [] → last = []) ∧
      (∀ source rest, left = source :: rest → Commands machine stilesSource source last ∨
        stilesSource ≠ none ∧ last = [metadataCommand source.directory]) ∧
      ∀ custom, ran.1 = .ok custom → left = [] := by
  intro ran
  obtain ⟨hend, hok⟩ := load_ok_iff machine host stilesSource sources
  rw [show ran.2 = _ from hend]
  rcases Journal.each_cases (loadResolved machine host stilesSource) sources [] with
    ⟨parts, hruns, -⟩ | ⟨done, source, rest, parts, j, e, rfl, hruns, hfails, herror⟩
  · obtain ⟨asked, hall, hcommands⟩ := commands_of_runs hruns
    refine ⟨sources, [], asked, [], (List.append_nil _).symm, hall, ?_, fun _ => rfl, nofun,
      fun _ _ => rfl⟩
    rw [hcommands, List.append_nil]
    rfl
  · obtain ⟨asked, hall, hcommands⟩ := commands_of_runs hruns
    obtain ⟨last, hown, hlast⟩ := commandsIn_loadResolved machine host stilesSource source j
    rw [hfails] at hown
    refine ⟨done, source :: rest, asked, last, rfl, hall, ?_, nofun, ?_, ?_⟩
    · rw [hown, hcommands]
      rfl
    · intro source' rest' hsplit
      cases hsplit
      exact hlast.imp_right fun h => ⟨h.1, h.2.1⟩
    · intro custom hcustom
      rw [((hok custom).mp hcustom).1] at herror
      cases herror

/-- Each of the commands is of a source. -/
theorem commandOf_of_load (machine : Machine D) (host : AbiIdentity)
    (stilesSource : Option FilePath) (sources : List Resolved) :
    ∀ command ∈ commandsIn (load machine host stilesSource (.ok sources) []).2,
      ∃ source ∈ sources, CommandOf stilesSource source command := by
  intro command hcommand
  obtain ⟨done, left, asked, last, hsplit, hall, hsame, hnone, hlast, -⟩ :=
    commands_of_load machine host stilesSource sources
  rw [hsame] at hcommand
  rcases List.mem_append.mp hcommand with hmem | hmem
  · obtain ⟨own, hown, hmem⟩ := List.mem_flatten.mp hmem
    obtain ⟨i, hi, rfl⟩ := List.getElem_of_mem hown
    have hi' : i < done.length := hall.length_eq ▸ hi
    refine ⟨done[i], ?_, commandOf_of_mem ((List.forall₂_iff_get.mp hall).2 i hi' hi) hmem⟩
    rw [hsplit]
    exact List.mem_append_left _ (List.getElem_mem hi')
  · cases left with
    | nil =>
      rw [hnone rfl] at hmem
      cases hmem
    | cons source rest =>
      refine ⟨source, by rw [hsplit]; simp, ?_⟩
      rcases hlast source rest rfl with h | ⟨hsource, rfl⟩
      · exact commandOf_of_mem h hmem
      · rw [List.mem_singleton.mp hmem]
        exact ⟨rfl, Or.inl ⟨hsource, rfl⟩⟩

/-- A load, over any answers of the machine. It calls nothing of a plugin but the `load` of a
    library whose handshake passed. It runs the commands of its sources, in their order and none
    twice, up to the first that fails. If it succeeds, each source gave at least one library, each
    library at least one lint and each lint at least one rule, no rule has two lints of one
    language, and the lints are what the libraries load to, in order. Where the sources are those of
    a table, a build is locked exactly if its entry is a git source and no stiles is patched in. -/
theorem load_run (machine : Machine D) (host : AbiIdentity) (stilesSource : Option FilePath)
    (sources : List Resolved) :
    let ran := load machine host stilesSource (.ok sources) []
    (∀ path address, Asked.touch path (.call address) ∈ ran.2 →
      ∃ before image static, before <+: ran.2 ∧ machine.opened before path = .ok image ∧
        image.declaration = .ok static ∧ address = static.load ∧
        validate host static.identity = .ok ()) ∧
    (∀ command ∈ commandsIn ran.2, ∃ source ∈ sources, CommandOf stilesSource source command) ∧
    (∀ tools os root project tag entries files,
      (Resolve.configuredSources tools os root project tag [] entries files).value = .ok sources →
        ∀ command ∈ commandsIn ran.2, ∃ configured ∈ entries.zip sources,
          CommandOf stilesSource configured.2 command ∧
            ("--locked" ∈ command.arguments ↔
              (∃ git, configured.1.1 = .Git git) ∧ stilesSource = none)) ∧
    (∃ done left asked last, sources = done ++ left ∧
      List.Forall₂ (Commands machine stilesSource) done asked ∧
      commandsIn ran.2 = asked.flatten ++ last ∧ (left = [] → last = []) ∧
      (∀ source rest, left = source :: rest → Commands machine stilesSource source last ∨
        stilesSource ≠ none ∧ last = [metadataCommand source.directory]) ∧
      ∀ custom, ran.1 = .ok custom → left = []) ∧
    ∀ custom, ran.1 = .ok custom → OwnsAlone custom.lints ∧
      ∃ loaded : List (List (Library D)),
        List.Forall₂ (fun source found => LoadsFrom machine host source ran.2 found) sources
          loaded ∧
        Stiles.loadLibraries loaded.flatten = .ok custom.lints ∧
        ∀ (env : Env D) config notices, env.libraries config = (.ok loaded.flatten, notices) →
          CustomLints.load env config = (.ok custom, notices) := by
  intro ran
  have hend : ran.2 = (Prog.each (loadResolved machine host stilesSource) sources []).2 :=
    (load_ok_iff machine host stilesSource sources).1
  have hok := (load_ok_iff machine host stilesSource sources).2
  have hof := commandOf_of_load machine host stilesSource sources
  refine ⟨?_, hof, ?_, commands_of_load machine host stilesSource sources, ?_⟩
  · intro path address hcall
    have htouches : Touches machine host
        (Prog.each (loadResolved machine host stilesSource) sources []).2 :=
      Journal.Triple.each (fun source _ => touches_loadResolved source) [] nofun
    rw [← hend] at htouches
    obtain ⟨before, hbefore, htouch⟩ := htouches path (.call address) hcall
    obtain ⟨image, static, hopened, hrest⟩ := openLibrary_call htouch
    exact ⟨before, image, static, hbefore, hopened, hrest⟩
  · intro tools os root project tag entries files hconfigured command hcommand
    obtain ⟨source, hmem, hsource⟩ := hof command hcommand
    obtain ⟨configured, hentry, rfl, hlocked⟩ := locked_of_configured hconfigured hmem hsource
    exact ⟨configured, hentry, hsource, hlocked⟩
  · intro custom hcustom
    obtain ⟨hall, hrefused⟩ := (hok custom).mp hcustom
    refine ⟨refuseSharedRules_ok_iff.mp hrefused, ?_⟩
    obtain ⟨parts, hruns, hlints⟩ := Journal.each_ok (Prod.ext hall rfl :
      Prog.each (loadResolved machine host stilesSource) sources [] = (.ok custom.lints, _))
    obtain ⟨loaded, hloaded, hparts⟩ := loaded_of_runs hruns
    rw [← hlints] at hparts
    refine ⟨loaded, ?_, hparts, ?_⟩
    · rw [hend]
      exact hloaded
    · intro env config notices hlibraries
      unfold CustomLints.load
      rw [hlibraries]
      dsimp only
      rw [hparts]
      dsimp only
      rw [hrefused]
      rfl

end LoadLints

end Stiles
