import Stiles.Check.Compare
import Stiles.Config.Load
import Stiles.CustomLints.LoadRun

/-
  A check run of a project under two rule filters.

  A `ProjectWorld` is what a run meets, with the resolution of the sources, the load and the walk of
  the model in it. Neither of them reads the rules. Two loops over the same files `Follow` each
  other: they differ in the diagnostics they keep, and in the sources they keep for those.

  * `load_iff`: the run loads what the load of the sources gives.
  * `walkFiles_follows`: the loop under a narrower filter follows the one under the wider.
  * `narrower_filter`: a narrower filter takes diagnostics out of the report. What is loaded,
    visited and recorded as failed does not depend on it.
-/

namespace Stiles

variable {D : DecorationTypes}

/-! ## The libraries of a load -/

namespace LoadLints

open Journal (Prog)
open Resolve (Locking Contents Resolved)

section

variable (machine : Machine D) (host : AbiIdentity) (stilesSource : Option FilePath)

/-- The libraries at some paths, as they are when they are opened. -/
def openLibraries (paths : List FilePath) : Prog Asked Anyhow (List (Library D)) :=
  Prog.each (fun path => Prog.tell fun j =>
    ((openLibrary host path (machine.opened j path)).1.map (.touch path),
      .ok [libraryAt host path (machine.opened j path)])) paths

def librariesOf (source : Resolved) : Prog Asked Anyhow (List (Library D)) :=
  match source.contents with
  | .Sources locking =>
    context ("failed to load the custom lints at " ++ source.directory.text)
      ((context ("failed to build the lints at " ++ source.directory.text)
        (build machine source.directory locking stilesSource)).andThen (openLibraries machine host))
  | .Libraries =>
    context ("failed to load the prebuilt lints at " ++ source.directory.text)
      ((Prog.look (prebuiltLibraries machine source.directory)).andThen
        (openLibraries machine host))

/-- The libraries that a load opens. -/
def foundLibraries (resolved : AnyhowResult (List Resolved)) :
    Prog Asked Anyhow (List (Library D)) :=
  (Prog.lift (withContext "failed to resolve the configured lint sources" resolved)).andThen
  fun sources => Prog.each (librariesOf machine host stilesSource) sources

end

section

variable {machine : Machine D} {host : AbiIdentity} {stilesSource : Option FilePath}

theorem loadLibraries_append_iff {found others : List (Library D)} {all : List (LoadedLint D)} :
    Stiles.loadLibraries (found ++ others) = .ok all ↔ ∃ lints rest,
      Stiles.loadLibraries found = .ok lints ∧ Stiles.loadLibraries others = .ok rest ∧
        all = lints ++ rest := by
  refine ⟨fun h => ?_, fun h => ?_⟩
  · induction found generalizing all with
    | nil => exact ⟨[], all, rfl, h, rfl⟩
    | cons library found ih =>
      rw [List.cons_append, Stiles.loadLibraries] at h
      rw [Stiles.loadLibraries]
      cases hlibrary : withContext ("failed to load " ++ library.path.text)
          (Stiles.loadLibrary library) with
      | error e =>
        rw [hlibrary] at h
        cases h
      | ok loaded =>
        rw [hlibrary] at h
        obtain ⟨after, hafter, rfl⟩ := map_eq_ok.mp h
        obtain ⟨lints, rest, hlints, hrest, rfl⟩ := ih hafter
        refine ⟨loaded ++ lints, rest, ?_, hrest, (List.append_assoc _ _ _).symm⟩
        exact map_eq_ok.mpr ⟨lints, hlints, rfl⟩
  · obtain ⟨lints, rest, hlints, hrest, rfl⟩ := h
    exact loadLibraries_append hlints hrest

/-- The libraries at some paths load if what is found there does. -/
theorem loadLibraries_iff (paths : List FilePath) (j : List Asked) (all : List (LoadedLint D))
    (j' : List Asked) :
    loadLibraries machine host paths j = (.ok all, j') ↔
      ∃ found, openLibraries machine host paths j = (.ok found, j') ∧
        Stiles.loadLibraries found = .ok all := by
  refine Journal.each_ok_iff (fun found all => Stiles.loadLibraries found = .ok all)
    (fun all => ?_) (fun first rest all => loadLibraries_append_iff) (fun path j part j' => ?_)
    paths j all j'
  · show Except.ok [] = Except.ok all ↔ all = []
    rw [Except.ok.injEq, eq_comm]
  · rw [context_ok]
    have hone : Stiles.loadLibraries [libraryAt host path (machine.opened j path)] = .ok part ↔
        (openLibrary host path (machine.opened j path)).2 = .ok part := by
      rw [openLibrary_libraryAt, Stiles.loadLibraries]
      cases Stiles.loadLibrary (libraryAt host path (machine.opened j path)) with
      | error e => exact iff_of_false (fun h => by cases h) fun h => by cases h
      | ok lints =>
        show Except.ok (lints ++ []) = _ ↔ _
        rw [List.append_nil]
    constructor
    · intro h
      obtain ⟨hloaded, rfl⟩ := Prod.ext_iff.mp h
      exact ⟨_, rfl, hone.mpr hloaded⟩
    · rintro ⟨found, hfound, hloaded⟩
      cases hfound
      exact Prod.ext (hone.mp hloaded) rfl

theorem loadResolved_iff (source : Resolved) (j : List Asked) (all : List (LoadedLint D))
    (j' : List Asked) :
    loadResolved machine host stilesSource source j = (.ok all, j') ↔
      ∃ found, librariesOf machine host stilesSource source j = (.ok found, j') ∧
        Stiles.loadLibraries found = .ok all := by
  have hbehind : ∀ p : Prog Asked Anyhow (List FilePath),
      p.andThen (loadLibraries machine host) j = (.ok all, j') ↔
        ∃ found, p.andThen (openLibraries machine host) j = (.ok found, j') ∧
          Stiles.loadLibraries found = .ok all := by
    intro p
    simp only [Prog.andThen_eq_ok, loadLibraries_iff]
    constructor
    · rintro ⟨paths, mid, hp, found, hfound, hall⟩
      exact ⟨found, ⟨paths, mid, hp, hfound⟩, hall⟩
    · rintro ⟨found, ⟨paths, mid, hp, hfound⟩, hall⟩
      exact ⟨paths, mid, hp, found, hfound, hall⟩
  unfold loadResolved librariesOf
  cases source.contents with
  | Sources locking =>
    simp only [context_ok]
    exact hbehind _
  | Libraries =>
    simp only [context_ok]
    exact hbehind _

/-- A load gives the lints of the libraries that it finds. -/
theorem load_found_iff (resolved : AnyhowResult (List Resolved)) (custom : CustomLints D) :
    (load machine host stilesSource resolved []).1 = .ok custom ↔
      ∃ found, (foundLibraries machine host stilesSource resolved []).1 = .ok found ∧
        Stiles.loadLibraries found = .ok custom.lints ∧
        refuseSharedRules custom.lints = .ok () := by
  cases resolved with
  | error e => exact iff_of_false nofun fun h => by obtain ⟨_, hfound, _⟩ := h; cases hfound
  | ok sources =>
    have heach := Journal.each_ok_iff (fun found all => Stiles.loadLibraries found = .ok all)
      (fun all => by rw [Stiles.loadLibraries, Except.ok.injEq, eq_comm])
      (fun first rest all => loadLibraries_append_iff)
      (@loadResolved_iff D machine host stilesSource) sources []
    rw [(load_ok_iff machine host stilesSource sources).2 custom]
    constructor
    · rintro ⟨hlints, hrefused⟩
      obtain ⟨found, hfound, hall⟩ := (heach custom.lints _).mp (Prod.ext hlints rfl)
      exact ⟨found, congrArg Prod.fst hfound, hall, hrefused⟩
    · rintro ⟨found, hfound, hall, hrefused⟩
      have hlints := (heach custom.lints _).mpr ⟨found, Prod.ext hfound rfl, hall⟩
      exact ⟨congrArg Prod.fst hlints, hrefused⟩

end

end LoadLints

/-! ## The world of a project -/

def StilesConfig.withRules (config : StilesConfig) (rules : RuleFilter) : StilesConfig :=
  { config with rules }

def LoadedConfig.withRules (loaded : LoadedConfig) (rules : RuleFilter) : LoadedConfig :=
  { loaded with config := loaded.config.withRules rules }

def Setup.withRules (setup : Setup D) (rules : RuleFilter) : Setup D :=
  { setup with config := setup.config.withRules rules }

/-- What a run of a project meets. The sources are resolved, the lints loaded and the files found as
    the model says; `rest` has what else a run asks for. -/
structure ProjectWorld (D : DecorationTypes) where
  rest : Env D
  tools : Resolve.Tools
  os : Resolve.Os
  cache : FilePath
  tag : AbiTag
  files : Files
  /-- What the entry of a number meets outside the cache. -/
  met : Nat → Resolve.World
  machine : LoadLints.Machine D
  identity : AbiIdentity
  display : Resolve.PrebuiltNotice → PrebuiltNotice
  walker : Discovery.Walker

namespace ProjectWorld

variable (world : ProjectWorld D) (loaded : LoadedConfig)

def resolution : Crash.Course Files Resolve.Event Anyhow (List Resolve.Resolved) :=
  Resolve.configuredSources world.tools world.os world.cache loaded.config.root world.tag []
    (loaded.lints.mapIdx fun i entry => (entry, world.met i)) world.files

/-- The load of the lints. -/
def load : AnyhowResult (CustomLints D) :=
  (LoadLints.load world.machine world.identity loaded.stilesSource (world.resolution loaded).value
    []).1

def libraries : AnyhowResult (List (Library D)) :=
  (LoadLints.foundLibraries world.machine world.identity loaded.stilesSource
    (world.resolution loaded).value []).1

def notices : List PrebuiltNotice :=
  (world.resolution loaded).log.filterMap fun
    | .notice notice => some (world.display notice)
    | _ => none

/-- The world of a run that reads this configuration. -/
def env : Env D :=
  { world.rest with
    loadConfig := fun _ => .ok loaded.config
    libraries := fun _ => (world.libraries loaded, world.notices loaded)
    discover := Discovery.run world.walker }

variable {world loaded}

/-- The run loads what the load of the sources gives. -/
theorem load_iff {config : StilesConfig} {custom : CustomLints D} :
    (CustomLints.load (world.env loaded) config).1 = .ok custom ↔
      world.load loaded = .ok custom := by
  rw [load, LoadLints.load_found_iff]
  show (CustomLints.load (world.env loaded) config).1 = .ok custom ↔ ∃ found,
    world.libraries loaded = .ok found ∧ loadLibraries found = .ok custom.lints ∧
      refuseSharedRules custom.lints = .ok ()
  unfold CustomLints.load
  rw [show (world.env loaded).libraries config = (world.libraries loaded, world.notices loaded)
    from rfl]
  dsimp only
  cases world.libraries loaded with
  | error e => exact iff_of_false nofun fun h => by obtain ⟨_, hfound, _⟩ := h; cases hfound
  | ok found =>
    dsimp only
    cases hlints : loadLibraries found with
    | error e =>
      refine iff_of_false nofun fun h => ?_
      obtain ⟨_, hfound, hload, _⟩ := h
      rw [← Except.ok.inj hfound, hlints] at hload
      cases hload
    | ok lints =>
      dsimp only
      constructor
      · intro h
        cases hrefused : refuseSharedRules lints with
        | error e =>
          rw [hrefused] at h
          cases h
        | ok u =>
          rw [hrefused] at h
          cases h
          exact ⟨found, rfl, hlints, hrefused⟩
      · rintro ⟨_, hfound, hload, hrefused⟩
        cases hfound
        rw [hlints, Except.ok.injEq] at hload
        rw [hload, hrefused]
        rfl

end ProjectWorld

/-! ## Two loops -/

/-- The locals of a loop under a narrower filter, beside those under the wider one. -/
structure Follows (narrow : RuleFilter) (few many : Locals) : Prop where
  pipelines : few.pipelines = many.pipelines
  diagnostics : few.allDiagnostics =
    many.allDiagnostics.filter fun d => narrow.admits d.ruleId
  remedies : few.remedies = many.remedies
  failures : few.failures = many.failures
  sent : few.sent = many.sent

section Filters

variable {world : ProjectWorld D} {loaded : LoadedConfig} {narrow wide : RuleFilter}
  {setup : Setup D} {few many : Locals}

/-- A failure is recorded alike. -/
theorem Follows.record (h : Follows narrow few many) (recovery : ErrorRecovery) (file : FilePath)
    (error : Anyhow) :
    (few.record recovery file error).1 = (many.record recovery file error).1 ∧
      Follows narrow (few.record recovery file error).2 (many.record recovery file error).2 := by
  rw [record_eq, record_eq]
  exact ⟨rfl, { h with failures := by rw [h.failures] }⟩

/-- The narrower filter keeps fewer of the diagnostics of a file. -/
theorem Follows.keepResult (h : Follows narrow few many) (hwide : setup.config.rules = wide)
    (hle : ∀ rule, narrow.admits rule = true → wide.admits rule = true) (file : FilePath)
    (source : String) (result : Except RunPipelineError (List Diagnostic)) :
    let less := Stiles.keepResult (setup.withRules narrow) file source result few
    let more := Stiles.keepResult setup file source result many
    less.1 = more.1 ∧ Follows narrow less.2 more.2 := by
  cases result with
  | error error =>
    have hremedies : ∀ remedies, Follows narrow { few with remedies } { many with remedies } :=
      fun remedies => { h with remedies := rfl }
    unfold Stiles.keepResult
    rw [h.remedies]
    exact (hremedies _).record setup.recovery file error.anyhow
  | ok diagnostics =>
    intro less more
    have hless : less = _ := keepResult_ok (setup.withRules narrow) file source diagnostics few
    have hmore : more = _ := keepResult_ok setup file source diagnostics many
    have hfilter : diagnostics.filter (fun d => narrow.admits d.ruleId) =
        (diagnostics.filter fun d => setup.config.rules.admits d.ruleId).filter
          fun d => narrow.admits d.ruleId := by
      rw [List.filter_filter, hwide]
      refine List.filter_congr fun d _ => ?_
      cases hadmits : narrow.admits d.ruleId with
      | false => rfl
      | true => rw [hle _ hadmits]; rfl
    rw [hless, hmore]
    refine ⟨rfl, { h with diagnostics := ?_ }⟩
    rw [List.filter_append, ← hfilter, ← h.diagnostics]
    rfl

theorem Follows.checkSource (world : ProjectWorld D) (loaded : LoadedConfig)
    (h : Follows narrow few many) (hwide : setup.config.rules = wide)
    (hle : ∀ rule, narrow.admits rule = true → wide.admits rule = true) (k : Nat)
    (file : FilePath) (source : String) :
    let less := Stiles.checkSource (world.env (loaded.withRules narrow)) (setup.withRules narrow) k
      file source few
    let more := Stiles.checkSource (world.env (loaded.withRules wide)) setup k file source many
    less.1 = more.1 ∧ Follows narrow less.2 more.2 := by
  unfold Stiles.checkSource
  rw [show (setup.withRules narrow).customLints = setup.customLints from rfl,
    show (setup.withRules narrow).config.options = setup.config.options from rfl]
  cases withContext "failed to configure the custom lints"
      (setup.customLints.instantiate setup.config.options k) with
  | error e => exact ⟨rfl, h⟩
  | ok passes =>
    dsimp only
    cases Grammar.of file with
    | none => exact h.record _ _ _
    | some grammar =>
      dsimp only
      -- both find the same pipeline, or build the same one
      have hpipeline : (few.pipeline (world.env (loaded.withRules narrow)) grammar).1 =
            (many.pipeline (world.env (loaded.withRules wide)) grammar).1 ∧
          Follows narrow (few.pipeline (world.env (loaded.withRules narrow)) grammar).2
            (many.pipeline (world.env (loaded.withRules wide)) grammar).2 := by
        unfold Locals.pipeline
        rw [h.pipelines, show (world.env (loaded.withRules narrow)).setLanguage =
          (world.env (loaded.withRules wide)).setLanguage from rfl]
        cases many.pipelines grammar with
        | some pipeline => exact ⟨rfl, h⟩
        | none =>
          dsimp only
          cases withContext "failed to initialize pipeline"
              (grammar.pipeline (world.env (loaded.withRules wide)).setLanguage) with
          | error e => exact ⟨rfl, h⟩
          | ok pipeline => exact ⟨rfl, { h with pipelines := rfl }⟩
      generalize few.pipeline (world.env (loaded.withRules narrow)) grammar = less at hpipeline
      generalize many.pipeline (world.env (loaded.withRules wide)) grammar = more at hpipeline
      obtain ⟨answer, few'⟩ := less
      obtain ⟨answer', many'⟩ := more
      obtain ⟨rfl, hfollows⟩ : answer = answer' ∧ Follows narrow few' many' := hpipeline
      cases answer with
      | error e => exact ⟨rfl, hfollows⟩
      | ok pipeline => exact hfollows.keepResult hwide hle file source _

theorem Follows.checkFile (world : ProjectWorld D) (loaded : LoadedConfig)
    (h : Follows narrow few many) (hwide : setup.config.rules = wide)
    (hle : ∀ rule, narrow.admits rule = true → wide.admits rule = true) (k : Nat)
    (file : FilePath) :
    let less := Stiles.checkFile (world.env (loaded.withRules narrow)) (setup.withRules narrow) k
      file few
    let more := Stiles.checkFile (world.env (loaded.withRules wide)) setup k file many
    less.1 = more.1 ∧ Follows narrow less.2 more.2 := by
  have hsent : ∀ sent, Follows narrow { few with sent } { many with sent } :=
    fun sent => { h with sent := rfl }
  unfold Stiles.checkFile
  rw [h.sent, show send (world.env (loaded.withRules narrow)) =
    send (world.env (loaded.withRules wide)) from rfl]
  generalize send (world.env (loaded.withRules wide)) _ _ many.sent = sending
  obtain ⟨answer, sent⟩ := sending
  cases answer with
  | error e => exact ⟨rfl, hsent sent⟩
  | ok u =>
    dsimp only
    rw [show (world.env (loaded.withRules narrow)).readToString =
      (world.env (loaded.withRules wide)).readToString from rfl]
    cases (world.env (loaded.withRules wide)).readToString k file with
    | error e => exact (hsent sent).record _ _ _
    | ok source => exact (hsent sent).checkSource world loaded hwide hle k file source

/-- The loop under the narrower filter goes the way of the one under the wider, with fewer
    diagnostics. -/
theorem walkFiles_follows (world : ProjectWorld D) (loaded : LoadedConfig)
    (hwide : setup.config.rules = wide)
    (hle : ∀ rule, narrow.admits rule = true → wide.admits rule = true) (k : Nat)
    (files : List FilePath) (h : Follows narrow few many) :
    let less := walkFiles (world.env (loaded.withRules narrow)) (setup.withRules narrow) k files few
    let more := walkFiles (world.env (loaded.withRules wide)) setup k files many
    less.1 = more.1 ∧ Follows narrow less.2 more.2 := by
  induction files generalizing k few many with
  | nil => exact ⟨rfl, h⟩
  | cons file rest ih =>
    have hstep := h.checkFile world loaded hwide hle k file
    unfold walkFiles
    generalize checkFile (world.env (loaded.withRules narrow)) (setup.withRules narrow) k file few =
      less at hstep
    generalize checkFile (world.env (loaded.withRules wide)) setup k file many = more at hstep
    obtain ⟨flow, few'⟩ := less
    obtain ⟨flow', many'⟩ := more
    obtain ⟨rfl, hfollows⟩ : flow = flow' ∧ Follows narrow few' many' := hstep
    cases flow with
    | next => exact ih (k + 1) hfollows
    | stop => exact ⟨rfl, hfollows⟩
    | fail e => exact ⟨rfl, hfollows⟩

/-! ## Two runs -/

/-- What a run is prepared with under one filter, it is prepared with under another one that names
    no unknown rule. -/
theorem Prepares.withRules {args : CheckArgs}
    (h : Prepares (world.env (loaded.withRules wide)) args setup)
    (hnarrow : narrow.validate setup.customLints.declared = .ok ()) :
    Prepares (world.env (loaded.withRules narrow)) args (setup.withRules narrow) := by
  have hconfig : loaded.config.withRules wide = setup.config := Except.ok.inj h.config
  exact
    { h with
      config := by rw [Setup.withRules, ← hconfig]; rfl
      rules := hnarrow }

/-- A narrower filter that names declared rules only takes diagnostics out of what a run finds and
    reports. The run is prepared with the same lints and files, the same files are visited, the same
    ones fail with the same errors, and the closing text is the same. Where both runs return a code, the narrower one
    succeeds if the wider one does. -/
theorem narrower_filter (world : ProjectWorld D) (loaded : LoadedConfig) (narrow wide : RuleFilter)
    (hle : ∀ rule, narrow.admits rule = true → wide.admits rule = true) (args : CheckArgs)
    (closing : ClosingText) (setup : Setup D)
    (hprepare : (prepare (world.env (loaded.withRules wide)) args closing).1 = .ok setup)
    (hnarrow : narrow.validate setup.customLints.declared = .ok ()) :
    let few := run (world.env (loaded.withRules narrow)) args closing
    let many := run (world.env (loaded.withRules wide)) args closing
    (prepare (world.env (loaded.withRules narrow)) args closing).1 = .ok (setup.withRules narrow) ∧
    world.load loaded = .ok setup.customLints ∧
    progress few.sent = progress many.sent ∧ few.recorded = many.recorded ∧
    few.closing = many.closing ∧
    (few.collected = many.collected.filter fun d => narrow.admits d.ruleId) ∧
    ∀ code code', few.result = .ok code → many.result = .ok code' →
      (reported few.sent = (reported many.sent).filter fun d => narrow.admits d.ruleId) ∧
      (code' = .SUCCESS → code = .SUCCESS) := by
  intro few many
  have hmany := prepares_of_ok hprepare
  have hfew := hmany.withRules hnarrow
  have hrules : setup.config.rules = wide := by
    rw [← Except.ok.inj hmany.config]
    rfl
  have hrun : many = _ := hmany.run_eq closing
  have hrun' : few = _ := hfew.run_eq closing
  have hopening : openingText (world.env (loaded.withRules narrow)) (setup.withRules narrow)
      closing = openingText (world.env (loaded.withRules wide)) setup closing := rfl
  have hstart : Follows narrow Locals.new Locals.new := ⟨rfl, rfl, rfl, rfl, rfl⟩
  have hnone := reported_walkFiles (world.env (loaded.withRules wide)) setup
  have hwalked := walkFiles_follows world loaded hrules hle 0
    setup.discovery.files hstart
  rw [hopening, show (setup.withRules narrow).discovery = setup.discovery from rfl] at hrun'
  have hload : (CustomLints.load (world.env loaded) setup.config).1 = .ok setup.customLints :=
    hmany.customLints
  refine ⟨hfew.prepare_ok closing, ProjectWorld.load_iff.mp hload, ?_⟩
  generalize walkFiles (world.env (loaded.withRules narrow)) (setup.withRules narrow) 0
    setup.discovery.files Locals.new = less at hwalked hrun'
  generalize walkFiles (world.env (loaded.withRules wide)) setup 0 setup.discovery.files
    Locals.new = more at hwalked hrun hnone
  obtain ⟨ended, st⟩ := less
  obtain ⟨ended', st'⟩ := more
  obtain ⟨rfl, hfollows⟩ : ended = ended' ∧ Follows narrow st st' := hwalked
  cases ended with
  | error e =>
    rw [hrun, hrun']
    exact ⟨by rw [afterLoop, afterLoop, hfollows.sent], hfollows.failures, rfl,
      hfollows.diagnostics, nofun⟩
  | ok u =>
    change few = conclude _ (setup.withRules narrow) _ st at hrun'
    change many = conclude _ setup _ st' at hrun
    rw [hrun, hrun']
    obtain ⟨hrecorded, hcollected, -, hprogress⟩ := conclude_frame
      (world.env (loaded.withRules wide)) setup
      (openingText (world.env (loaded.withRules wide)) setup closing) st'
    obtain ⟨hrecorded', hcollected', -, hprogress'⟩ := conclude_frame
      (world.env (loaded.withRules narrow)) (setup.withRules narrow)
      (openingText (world.env (loaded.withRules wide)) setup closing) st
    refine ⟨?_, ?_, ?_, ?_, fun code code' hcode hcode' => ?_⟩
    · rw [hprogress, hprogress', hfollows.sent]
    · rw [hrecorded, hrecorded', hfollows.failures]
    · rw [conclude_closing, conclude_closing, hfollows.failures]
    · rw [hcollected, hcollected', hfollows.diagnostics]
    · obtain ⟨hreported, hverdict⟩ := conclude_ok hcode'
      obtain ⟨hreported', hverdict'⟩ := conclude_ok hcode
      rw [hfollows.sent, hfollows.diagnostics] at hreported'
      rw [hfollows.failures, hfollows.diagnostics] at hverdict'
      change reported st'.sent = [] at hnone
      refine ⟨?_, fun h => ?_⟩
      · rw [hreported', hreported, hnone, List.nil_append, List.nil_append, List.filter_map]
        refine congrArg _ (List.filter_congr fun d _ => ?_)
        rw [Function.comp_apply, FailureThreshold.promote_ruleId]
      · obtain ⟨hfailures, houtcome, hbelow⟩ := hverdict.mp h
        exact hverdict'.mpr ⟨hfailures, houtcome, fun d hd => hbelow d (List.mem_of_mem_filter hd)⟩

end Filters

/-! ## A project under two filters -/

open Journal (Prog)

/-- A machine on which every command prints `stdout`, and every library has a lint for each
    language. -/
def mixedMachine (stdout : String) : LoadLints.Machine noteTypes where
  dllExtension := "so"
  output _ _ := .ok ⟨true, .ok stdout, ""⟩
  parseMetadata _ := .error (.msg "expected value at line 1 column 1")
  readMessage := Artifact.readWorkspace
  canonicalize _ := .ok
  readDir _ _ := .ok []
  isFile _ _ := false
  opened _ _ := .ok { declaration := .ok literalStatic, call := fun _ => .ok mixedLints }

/-- The lints of a project are a directory of it, and three of its files are listed. -/
def mixedWorld : ProjectWorld noteTypes where
  rest := projectEnv [] (fun _ _ => .ok "abc;") fun _ => .ok (numberingPass 0)
  tools := Resolve.plainTools
  os :=
    { exists_ := fun _ => true
      isDir := fun _ => true
      isFile := fun _ => true
      canonicalize := .ok }
  cache := ⟨"/cache"⟩
  tag := AbiTag.new ⟨⟨0, 7⟩, 0xaa, 0xbb⟩ "x86_64-unknown-linux-gnu"
  files _ := none
  met := Resolve.plainWorld
  machine := mixedMachine (Artifact.unlines [Artifact.messageText "/p/a"])
  identity := ⟨⟨0, 7⟩, 0xaa, 0xbb⟩
  display _ := ⟨"no prebuilt lints"⟩
  walker := Discovery.listedWalker [.ok ⟨⟨"/project/app.ts"⟩, some .File, none⟩,
    .ok ⟨⟨"/project/lib.rs"⟩, some .File, none⟩, .ok ⟨⟨"/project/main.rs"⟩, some .File, none⟩]

def mixedConfig : LoadedConfig where
  config := Discovery.projectConfig
  lints := [.Path ⟨"/p/a"⟩]
  stilesSource := none

theorem messageLines_one :
    Artifact.messageLines (Artifact.unlines [Artifact.messageText "/p/a"]) =
      [Artifact.messageText "/p/a"] := by
  rw [Artifact.messageLines, Artifact.lines_workspace (by simp [Artifact.workspace])]
  simp only [List.filter_cons, Artifact.messageText_notBlank]
  rfl

theorem foundLibraries_mixedMachine {stdout : String} {directory library : FilePath}
    (h : Artifact.cdylibArtifacts Artifact.readWorkspace .ok "so" stdout directory =
      .ok [library]) :
    (LoadLints.foundLibraries (mixedMachine stdout) ⟨⟨0, 7⟩, 0xaa, 0xbb⟩ none
      (.ok [⟨directory, .Sources .Unlocked⟩]) []).1 =
        .ok [{ path := library, exports := .ok mixedLints }] := by
  have hbuild : LoadLints.build (mixedMachine stdout) directory .Unlocked none [] =
      (.ok [library], _) := Prod.ext h rfl
  have hlibraries : LoadLints.librariesOf (mixedMachine stdout) ⟨⟨0, 7⟩, 0xaa, 0xbb⟩ none
      ⟨directory, .Sources .Unlocked⟩ [] =
        (.ok [{ path := library, exports := .ok mixedLints }], _) :=
    LoadLints.context_ok.mpr
      (Prog.andThen_eq_ok.mpr ⟨[library], _, LoadLints.context_ok.mpr hbuild, rfl⟩)
  have hfound : LoadLints.foundLibraries (mixedMachine stdout) ⟨⟨0, 7⟩, 0xaa, 0xbb⟩ none
      (.ok [⟨directory, .Sources .Unlocked⟩]) [] =
        (.ok [{ path := library, exports := .ok mixedLints }], _) :=
    Prog.andThen_eq_ok.mpr ⟨_, [], rfl, Prog.andThen_eq_ok.mpr ⟨_, _, hlibraries, rfl⟩⟩
  exact congrArg Prod.fst hfound

/-- The library that the load opens. -/
theorem libraries_mixedWorld (rules : RuleFilter) :
    mixedWorld.libraries (mixedConfig.withRules rules) =
      .ok [{ path := ⟨"/p/a/x.so"⟩, exports := .ok mixedLints }] := by
  have hresolved : (mixedWorld.resolution (mixedConfig.withRules rules)).value =
      .ok [⟨⟨"/p/a"⟩, .Sources .Unlocked⟩] := rfl
  have hbuilt : Artifact.cdylibArtifacts Artifact.readWorkspace .ok "so"
      (Artifact.unlines [Artifact.messageText "/p/a"]) ⟨"/p/a"⟩ = .ok [⟨"/p/a/x.so"⟩] := by
    rw [Artifact.cdylibArtifacts, messageLines_one]
    decide
  rw [ProjectWorld.libraries, hresolved]
  exact foundLibraries_mixedMachine hbuilt

/-- What a run of the project meets, with the load done. -/
def filteredEnv (rules : RuleFilter) : Env noteTypes :=
  { mixedWorld.rest with
    loadConfig := fun _ => .ok (mixedConfig.withRules rules).config
    libraries := fun _ => (.ok [{ path := ⟨"/p/a/x.so"⟩, exports := .ok mixedLints }], [])
    discover := Discovery.run mixedWorld.walker }

theorem env_mixedWorld (rules : RuleFilter) :
    mixedWorld.env (mixedConfig.withRules rules) = filteredEnv rules := by
  rw [ProjectWorld.env, libraries_mixedWorld]
  rfl

/-- The rule of the TypeScript lint is off: the three files are visited, and the findings of the
    other lint are reported. -/
theorem narrower_filter_off :
    let few := run (mixedWorld.env (mixedConfig.withRules (.Except {"lint.name"})))
      ⟨⟨"."⟩, false, false⟩ .default
    let many := run (mixedWorld.env (mixedConfig.withRules .All)) ⟨⟨"."⟩, false, false⟩ .default
    progress few.sent = progress many.sent ∧ (progress many.sent).length = 3 ∧
      reported few.sent =
        (reported many.sent).filter (fun d => (RuleFilter.Except {"lint.name"}).admits d.ruleId) ∧
      (reported few.sent).length = 4 ∧ (reported many.sent).length = 5 := by
  intro few many
  obtain ⟨setup, hprepare, hnarrow⟩ : ∃ setup,
      (prepare (filteredEnv .All) ⟨⟨"."⟩, false, false⟩ .default).1 = .ok setup ∧
        (RuleFilter.Except {"lint.name"}).validate setup.customLints.declared = .ok () :=
    ⟨_, rfl, by decide⟩
  rw [← env_mixedWorld] at hprepare
  obtain ⟨-, -, hprogress, -, -, -, hcodes⟩ := narrower_filter mixedWorld mixedConfig
    (.Except {"lint.name"}) .All (fun _ _ => rfl) ⟨⟨"."⟩, false, false⟩ .default setup hprepare
    hnarrow
  have hfew : few = run (filteredEnv (.Except {"lint.name"})) ⟨⟨"."⟩, false, false⟩ .default := by
    rw [← env_mixedWorld]
  have hmany : many = run (filteredEnv .All) ⟨⟨"."⟩, false, false⟩ .default := by
    rw [← env_mixedWorld]
  have hreported := (hcodes .SUCCESS .SUCCESS (by rw [env_mixedWorld]; decide)
    (by rw [env_mixedWorld]; decide)).1
  refine ⟨hprogress, ?_, hreported, ?_, ?_⟩
  · rw [hmany]
    decide
  · rw [hfew]
    decide
  · rw [hmany]
    decide

end Stiles
