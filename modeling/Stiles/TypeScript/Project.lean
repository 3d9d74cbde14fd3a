import Stiles.General.Trail
import Stiles.Types.Errors
import Stiles.Types.PathComponents

/-
  The TypeScript project of a file (`provider.rs` and `load_type_script_project_error.rs` of
  stiles-typescript).

  `absolute` is `std::path::absolute`: it puts the current directory in front of a relative path and
  keeps every `..`. `discoverRoot` then tries the path and each path above it, as they are written.
  Paths are compared by their components, so an absolute path is its trail from the root, with a
  step back for each `..`.

  * `discoverRoot_eq`: the root is the longest front of the trail that holds a `tsconfig.json`.
  * `load_root`: the project that is loaded for a root that was found has that root.
-/

namespace Stiles.TypeScriptProject

open Trail (location)

abbrev Name := List Char

/-- The file that marks the root of a TypeScript project. -/
def CONFIG_FILE : Name := "tsconfig.json".toList

/-- A path from the root: the names on it, and a step back for each `..`. -/
structure AbsolutePath where
  trail : List (Option Name)
deriving DecidableEq, Repr

/-- A component behind the root. A leading `.` says nothing. -/
def stepOf : Component → Option (Option Name)
  | .Normal name => some (some name)
  | .ParentDir => some none
  | .RootDir => none
  | .CurDir => none

def trailOf (components : List Component) : List (Option Name) := components.filterMap stepOf

namespace AbsolutePath

def componentOf : Option Name → Component
  | some name => .Normal name
  | none => .ParentDir

def components (path : AbsolutePath) : List Component := .RootDir :: path.trail.map componentOf

/-- `Path::join` of a name. -/
def join (path : AbsolutePath) (name : Name) : AbsolutePath := ⟨path.trail ++ [some name]⟩

/-- `Path::ancestors`: the path itself, its parent, and so on up to the root. -/
def ancestors (path : AbsolutePath) : List AbsolutePath := path.trail.inits.reverse.map .mk

def display (path : AbsolutePath) : String :=
  "/" ++ "/".intercalate (path.trail.map fun step => String.ofList (step.getD ['.', '.']))

end AbsolutePath

theorem trailOf_componentOf (trail : List (Option Name)) :
    trailOf (trail.map AbsolutePath.componentOf) = trail := by
  unfold trailOf
  induction trail with
  | nil => rfl
  | cons step trail ih =>
    cases step with
    | some name => exact congrArg (some name :: ·) ih
    | none => exact congrArg (none :: ·) ih

inductive LoadTypeScriptProjectError where
  | UnresolvablePath (path : List Component) (source : IoError)
  | MissingConfig (path : AbsolutePath)
  | NotUtf8 (path : AbsolutePath)
  | InvalidConfig (config : AbsolutePath) (messages : List String)
  | EmptyConfig (config : AbsolutePath)
deriving DecidableEq, Repr

/-- The text of a path as it is written. -/
def displayComponents : List Component → String
  | .RootDir :: rest => "/" ++ displayComponents rest
  | components => "/".intercalate (components.map fun component =>
      match component with
      | .RootDir => "/"
      | .CurDir => "."
      | .ParentDir => ".."
      | .Normal name => String.ofList name)

/-- The message of the error and those of its causes. -/
def LoadTypeScriptProjectError.chain : LoadTypeScriptProjectError → List String
  | .UnresolvablePath path source =>
    ["failed to resolve " ++ displayComponents path ++ " to an absolute path", source.message]
  | .MissingConfig path =>
    ["no " ++ String.ofList CONFIG_FILE ++ " sits at or above " ++ path.display]
  | .NotUtf8 path =>
    [path.display ++ " is not valid UTF-8, and tsrs only addresses UTF-8 paths"]
  | .InvalidConfig config messages =>
    [config.display ++ " does not parse: " ++ "; ".intercalate messages]
  | .EmptyConfig config => ["tsrs read no configuration from " ++ config.display]

/-- What the operating system and tsrs answer during a run. -/
structure Host (Program : Type) where
  currentDir : Except IoError AbsolutePath
  isFile : AbsolutePath → Bool
  /-- The program that tsrs reads from the configuration at a root. -/
  newProgram : AbsolutePath → Except LoadTypeScriptProjectError Program

variable {Program : Type} (host : Host Program)

/-- `std::path::absolute`. -/
def absolute (path : List Component) : Except IoError AbsolutePath :=
  match path with
  | [] => .error ⟨"cannot make an empty path absolute"⟩
  | .RootDir :: rest => .ok ⟨trailOf rest⟩
  | _ => host.currentDir.map fun current => ⟨current.trail ++ trailOf path⟩

/-- The nearest directory at or above `path` that holds a `tsconfig.json`. -/
def discoverRoot (path : AbsolutePath) : Option AbsolutePath :=
  path.ancestors.find? fun directory => host.isFile (directory.join CONFIG_FILE)

def projectRoot (path : List Component) : Option AbsolutePath :=
  match absolute host path with
  | .error _ => none
  | .ok path => discoverRoot host path

/-- A loaded project: the program of tsrs, and the directory of its configuration. -/
structure TypeScriptDecorationProvider (Program : Type) where
  program : Program
  root : AbsolutePath
deriving DecidableEq, Repr

def load (path : List Component) :
    Except LoadTypeScriptProjectError (TypeScriptDecorationProvider Program) :=
  match absolute host path with
  | .error source => .error (.UnresolvablePath path source)
  | .ok path =>
    match discoverRoot host path with
    | none => .error (.MissingConfig path)
    | some root => (host.newProgram root).map fun program => { program, root }

/-! ## What is found -/

variable {host}

/-- The trail of a path as it is written holds a configuration where it leads. -/
def holds (host : Host Program) (front : List (Option Name)) : Bool :=
  host.isFile ((⟨front⟩ : AbsolutePath).join CONFIG_FILE)

/-- The root is the longest front of the trail that holds a configuration. -/
theorem discoverRoot_eq (path : AbsolutePath) :
    discoverRoot host path = (Trail.longest (holds host) path.trail).map .mk := by
  unfold discoverRoot AbsolutePath.ancestors Trail.longest
  rw [List.find?_map]
  rfl

theorem absolute_components (path : AbsolutePath) :
    absolute host path.components = .ok path := by
  unfold absolute AbsolutePath.components
  dsimp only
  rw [trailOf_componentOf]

theorem holds_of_discoverRoot {path root : AbsolutePath}
    (h : discoverRoot host path = some root) :
    root.trail <+: path.trail ∧ holds host root.trail = true := by
  rw [discoverRoot_eq] at h
  obtain ⟨front, hfront, rfl⟩ := Option.map_eq_some_iff.mp h
  obtain ⟨hfirst, hholds, _⟩ := Trail.longest_eq_some.mp hfront
  exact ⟨hfirst, hholds⟩

/-- A root that holds a configuration is its own root. -/
theorem discoverRoot_self {root : AbsolutePath} (h : holds host root.trail = true) :
    discoverRoot host root = some root := by
  rw [discoverRoot_eq]
  have hself : Trail.longest (holds host) root.trail = some root.trail :=
    Trail.longest_eq_some.mpr ⟨List.prefix_rfl, h, fun _ hother _ => hother⟩
  rw [hself]
  rfl

/-- The project that is loaded for a root that was found has that root. -/
theorem load_root {path root : AbsolutePath} (h : discoverRoot host path = some root) :
    load host root.components =
      (host.newProgram root).map fun program => { program, root } := by
  unfold load
  rw [absolute_components]
  dsimp only
  rw [discoverRoot_self (holds_of_discoverRoot h).2]

end Stiles.TypeScriptProject
