import Stencil.Project.Discovery
import Stencil.Project.Report
import Stencil.View.Renderer
/-
  A run of a project: its pages are compiled, rendered, and shown or written.

  All that a run reads is read first: the settings, the data, and the markup of every component and every page it was
  asked for.  Then the pages go through one engine, one after the other; an engine keeps what it has compiled, and a
  later page can only notice it where its path has the same components as one before it and stands for
  something else.  Last come the pages in their order, the failures, and a summary.  A page that cannot be
  written ends the run.
-/

namespace Stencil

/-- What became of a page. -/
inductive PageResult where
  | rendered (html : String)
  | checked
  | failed (failure : Failure)
deriving DecidableEq, Repr

namespace Run

/-! ## Pages -/

/-- Where an error points in a text, if it points anywhere. -/
def position? (e : ViewError) (markup : Option String) : Option Position := do
  let span ← e.span?
  let markup ← markup
  some ((Lines.ofText markup).locate span)

/-- Compile a page and, unless it is only checked, render it. -/
def runPage (e : Engine) (checkOnly : Bool) (bindings : Bindings) (file : Path) :
    PageResult × Engine :=
  match e.compile (.path file) with
  | (.error err, e) =>
    (.failed ⟨file, position? err (e.markupOf (.path file)).toOption, err⟩, e)
  | (.ok _, e) =>
    if checkOnly then (.checked, e)
    else
      match e.render (.path file) bindings with
      | (.ok html, e) => (.rendered html, e)
      | (.error err, e) => (.failed ⟨file, none, err⟩, e)

/-- Process pages one after the other. -/
def runPages (e : Engine) (checkOnly : Bool) (bindings : Bindings) :
    List Path → List (Path × PageResult) × Engine
  | [] => ([], e)
  | file :: files =>
    let (result, e) := runPage e checkOnly bindings file
    let (results, e) := runPages e checkOnly bindings files
    ((file, result) :: results, e)

/-! ## Components -/

/-- Register components one after the other. -/
def registerAll (e : Engine) : List FoundComponent → Except ViewError Engine
  | [] => .ok e
  | c :: cs =>
    match e.register c.name (.path c.path) (some c.path) c.vendor with
    | .error err => .error err
    | .ok (_, e) => registerAll e cs

/-- The engine of a project with its components, given what was found for every path. -/
def engine (s : Settings) (found : List (Path × Except ViewError Loaded))
    (components : List FoundComponent) : Except ViewError Engine :=
  registerAll
    { loader := Loader.gathered found
      processors := [Processor.shared s.globals]
      options := s.options }
    components

/-- The file of a component, or its name where it comes from no file. -/
def componentFile (e : Engine) (name : String) : Path :=
  match (e.registry.get? name).bind RegisteredComponent.origin with
  | some p => p
  | none => ⟨"<" ++ name ++ ">"⟩

/-! ## Output -/

/-- The name of the file a page is written to, seen from the output directory: its name seen from the first
    root it lies in, with another ending; of an absolute path in no root the last name alone. -/
def pageName (file : Path) (roots : List Path) : Path :=
  let seen := (roots.findSome? fun root => file.relativeTo? root).getD file
  let seen := if seen.isAbsolute then ⟨seen.fileName?.getD "index.view.html"⟩ else seen
  let name := seen.fileName?.getD ""
  let stem :=
    match Discovery.withoutEnd? ".view.html" name with
    | some stem => stem
    | none => (Discovery.withoutEnd? ".html" name).getD name
  seen.withFileName (stem ++ ".html")

variable {m : Type → Type} [Monad m]

/-- Write a page below a directory. -/
def write (disk : Disk m) (roots : List Path) (outDir file : Path) (html : String) :
    m (Except ProjectError Event) := do
  let out := outDir.join (pageName file roots)
  let directory := out.parent?.getD ⟨""⟩
  if ← disk.createDirectories directory then
    if ← disk.write out html then return .ok (.written file out)
    else return .error (.fileNotWritten out)
  else return .error (.directoryNotCreated directory)

/-- Show or write the pages that were rendered, until one cannot be written. -/
def emit (disk : Disk m) (roots : List Path) (outDir : Option Path) :
    List (Path × PageResult) → m (List Event × Option ProjectError)
  | [] => return ([], none)
  | (file, .rendered html) :: results => do
    let event ←
      match outDir with
      | none => pure (.ok (.rendered file html))
      | some dir => write disk roots dir file html
    match event with
    | .error e => return ([], some e)
    | .ok event =>
      let (events, ended) ← emit disk roots outDir results
      return (event :: events, ended)
  | _ :: results => emit disk roots outDir results

/-- The failures among pages. -/
def failures (results : List (Path × PageResult)) : List Failure :=
  results.filterMap fun result =>
    match result.2 with
    | .failed f => some f
    | _ => none

/-- What is told after the pages. -/
def closing (a : Arguments) (files : Nat) (failures : List Failure) : List Event :=
  failures.map .failed ++
    (if a.timings then [.timing] else []) ++
    (if a.check || !failures.isEmpty || a.outDir.isSome then
      [.summary files failures.length] else [])

/-! ## Reading -/

/-- The values in a data file. -/
def readData (disk : Disk m) (file : Path) : m (Except ProjectError Bindings) := do
  match ← disk.read? file with
  | none => return .error (.unreadable file)
  | some text =>
    match Json.read? text with
    | none => return .error (.malformed file)
    | some j =>
      match SettingsFile.bindings? j with
      | none => return .error (.invalidData file)
      | some bindings => return .ok bindings

/-- The values that the arguments bind in every page. -/
def bindings (disk : Disk m) (a : Arguments) : m (Except ProjectError Bindings) :=
  match a.data with
  | none => return .ok []
  | some file => readData disk file

/-- What the paths of views stand for. -/
def gather (disk : Disk m) (roots : List Path) (paths : List Path) :
    m (List (Path × Except ViewError Loaded)) :=
  paths.mapM fun p => return (p, ← Lookup.load disk roots p)

/-- The failures of components, each with the place it points to in the file of the component. -/
def locateAll (disk : Disk m) (e : Engine) :
    List (String × ViewError) → m (List Failure)
  | [] => return []
  | (name, err) :: more => do
    let file := componentFile e name
    let markup ← if err.span?.isSome then disk.read? file else pure none
    let failures ← locateAll disk e more
    return ⟨file, position? err markup, err⟩ :: failures

end Run

/-- What a run came to. -/
structure Tally where
  files : Nat
  errors : Nat
deriving DecidableEq, Repr

namespace Run

variable {m : Type → Type} [Monad m]

/-- Run a project that has an engine. -/
def pages (disk : Disk m) (s : Settings) (a : Arguments) (e : Engine) (bindings : Bindings)
    (files : List Path) : m (List Event × Except ProjectError Tally) := do
  let (results, e) := runPages e a.check bindings files
  let (broken, e) := if a.check then e.brokenComponents else ([], e)
  let broken ← locateAll disk e broken
  let (events, ended) ← emit disk s.templateRoots a.outDir results
  match ended with
  | some err => return (events, .error err)
  | none =>
    let failures := broken ++ failures results
    return (events ++ closing a files.length failures, .ok ⟨files.length, failures.length⟩)

/-- Run the project of a workspace: what is to be told, and what the run came to. -/
def run (disk : Disk m) (workspace : Path) (a : Arguments) :
    m (List Event × Except ProjectError Tally) := do
  match ← Settings.load disk workspace a with
  | .error err => return ([], .error err)
  | .ok s =>
    let componentsUnder ← Discovery.listing disk s.componentDirs
    let components := Discovery.components s componentsUnder
    let files ←
      if a.templates.isEmpty then do
        let pagesUnder ← Discovery.listing disk s.templateRoots
        pure (Discovery.pages s pagesUnder)
      else pure a.templates
    let found ← gather disk s.templateRoots (components.map FoundComponent.path ++ files)
    match engine s found components with
    | .error err => return ([], .error (.component err))
    | .ok e =>
      match ← bindings disk a with
      | .error err => return ([], .error err)
      | .ok bindings => pages disk s a e bindings files

end Run

end Stencil
