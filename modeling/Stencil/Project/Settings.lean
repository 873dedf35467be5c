import Stencil.Files.Disk
import Stencil.Files.Glob
import Stencil.Json.Reader
import Stencil.Project.Arguments
import Stencil.Project.Error
import Stencil.View.Engine
/-
  The settings of a project.

  They come from a file in the workspace or the nearest directory around it, and from the arguments.  Directories
  in the file are relative to the file, those in the arguments to the workspace; where none is given, the
  workspace itself is the only one.
-/

namespace Stencil

/-- What the settings file of a project says. -/
structure SettingsFile where
  componentDirs : List Path := []
  templateRoots : List Path := []
  ignore : List String := []
  globals : Bindings := []
  tagMarker : Option String := none
  maxComponentDepth : Option Nat := none

namespace SettingsFile

/-- The name of a settings file. -/
def name : String := "viewc.json"

/-- The fields of a settings file. -/
def fieldNames : List String :=
  ["componentDirs", "templateRoots", "ignore", "globals", "componentPrefix", "maxComponentDepth"]

/-- The texts in an array of texts. -/
def texts? (j : Json) : Option (List String) := do
  let items ← j.items?
  items.mapM Json.text?

/-- The bindings in an object. -/
def bindings? (j : Json) : Option Bindings :=
  match Value.ofJson j with
  | .map entries => some entries
  | _ => none

/-- A number of levels, which a machine word must hold. -/
def depth? (j : Json) : Option Nat :=
  match j with
  | .int n => if 0 ≤ n ∧ n < UInt64.size then some n.toNat else none
  | _ => none

/-- A field that may be null. -/
def optional? {α : Type} (read : Json → Option α) (j : Json) : Option (Option α) :=
  match j with
  | .null => some none
  | j => (read j).map some

/-- The file with a field. -/
def withField? (f : SettingsFile) (field : String × Json) : Option SettingsFile :=
  let (name, j) := field
  match name with
  | "componentDirs" => (texts? j).map fun ts => { f with componentDirs := ts.map Path.mk }
  | "templateRoots" => (texts? j).map fun ts => { f with templateRoots := ts.map Path.mk }
  | "ignore" => (texts? j).map fun ts => { f with ignore := ts }
  | "globals" => (bindings? j).map fun b => { f with globals := b }
  | "componentPrefix" => (optional? Json.text? j).map fun marker => { f with tagMarker := marker }
  | "maxComponentDepth" => (optional? depth? j).map fun depth => { f with maxComponentDepth := depth }
  | _ => some f

/-- What a text says as a settings file; fields that are not known do not count. -/
def parse? (text : String) : Option SettingsFile := do
  let fields ← Json.fields? fieldNames text
  fields.foldlM withField? {}

end SettingsFile

/-- The settings of a project. -/
structure Settings where
  workspace : Path
  /-- The settings file, if there is one. -/
  file : Option Path
  componentDirs : List Path
  templateRoots : List Path
  ignore : List Glob
  /-- Values that every page can use. -/
  globals : Bindings
  options : EngineSettings

namespace Settings

/-- Whether a path is left out of the project. -/
def isIgnored (s : Settings) (p : Path) : Bool := s.ignore.any fun glob => glob.matches p

/-- Patterns that hold in every project. -/
def standardPatterns : List String := ["**/node_modules/**", "**/.git/**"]

/-- The patterns that texts describe. -/
def globs : List String → Except ProjectError (List Glob)
  | [] => .ok []
  | text :: texts =>
    match Glob.parse text with
    | .error _ => .error (.invalidPattern text)
    | .ok glob => (globs texts).map (glob :: ·)

/-- Directories seen from two places, or the workspace where there are none. -/
def directories (workspace base : Path) (fromFile fromArguments : List Path) : List Path :=
  match fromFile.map base.join ++ fromArguments.map workspace.join with
  | [] => [workspace]
  | dirs => dirs

/-- The settings that a file and the arguments make. -/
def combine (workspace : Path) (file : Option Path) (f : SettingsFile) (a : Arguments) :
    Except ProjectError Settings :=
  let base := (file.bind Path.parent?).getD workspace
  (globs (standardPatterns ++ f.ignore ++ a.ignore)).map fun ignore =>
    { workspace := workspace
      file := file
      componentDirs := directories workspace base f.componentDirs a.componentDirs
      templateRoots := directories workspace base f.templateRoots a.templateRoots
      ignore := ignore
      globals := f.globals
      options :=
        { maxComponentDepth := f.maxComponentDepth.getD ({} : EngineSettings).maxComponentDepth
          tagMarker := f.tagMarker.getD ({} : EngineSettings).tagMarker } }

variable {m : Type → Type} [Monad m]

/-- The first of some paths that leads to a file. -/
def firstFile (disk : Disk m) : List Path → m (Option Path)
  | [] => return none
  | p :: ps => do
    if ← disk.isFile p then return some p else firstFile disk ps

/-- A directory and those around it, from the inside out. -/
def around (dir : Path) : List Path :=
  let outer := dir.upToEach.reverse.drop 1
  dir :: (if dir.isAbsolute || dir.components.isEmpty then outer else outer ++ [⟨""⟩])

/-- The settings of a workspace. -/
def load (disk : Disk m) (workspace : Path) (a : Arguments) : m (Except ProjectError Settings) := do
  let file ←
    match a.config with
    | some p => pure (some p)
    | none => firstFile disk ((around workspace).map fun dir => dir.join ⟨SettingsFile.name⟩)
  match file with
  | none => return combine workspace none {} a
  | some p =>
    match ← disk.read? p with
    | none => return .error (.unreadable p)
    | some text =>
      match SettingsFile.parse? text with
      | none => return .error (.malformed p)
      | some f => return combine workspace file f a

end Settings

end Stencil
