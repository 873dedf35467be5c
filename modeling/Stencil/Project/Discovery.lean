import Stencil.Project.Settings
import Stencil.View.Lookup
/-
  Finding the pages and components of a project.

  A view is a file with the extension of views.  It is a component when its name begins with the mark of
  components and goes on after it; else it is a page.  Files are listed by the order of their paths, and a
  file that is found through several directories counts as found through the first of them.
-/

namespace Stencil

/-- A component found in a directory. -/
structure FoundComponent where
  name : String
  path : Path
  /-- Whether a directory for vendors lies between the file and the directory it was found through. -/
  vendor : Bool
deriving DecidableEq, Repr

namespace Discovery

/-- A text without another one at its end. -/
def withoutEnd? (ending text : String) : Option String :=
  (Text.afterMark ending.toList.reverse text.toList.reverse).map fun rest =>
    String.ofList rest.reverse

/-- Whether a path names a view. -/
def isView (p : Path) : Bool :=
  p.fileName?.any fun name => (withoutEnd? ("." ++ Lookup.extension) name).isSome

/-- The name of the component in a file, if the name of the file is that of a component. -/
def componentName? (tagMarker : String) (p : Path) : Option String := do
  let file ← p.fileName?
  let name ← withoutEnd? ("." ++ Lookup.extension) file
  match Text.afterMark tagMarker.toList name.toList with
  | some (_ :: _) => some name
  | _ => none

/-- Whether one path comes before another or is the same by its components. -/
def notAfter (p q : Path) : Bool := p.compare q != .gt

/-- Neighbours that are the same by their key, once, as the first of them. -/
def onceEach {α : Type} (key : α → Path) : List α → List α
  | [] => []
  | a :: rest =>
    a :: (onceEach key rest).dropWhile fun b => (key a).same (key b)

/-- In the order of their paths, and each path once. -/
def sorted {α : Type} (key : α → Path) (found : List α) : List α :=
  onceEach key (found.mergeSort fun a b => notAfter (key a) (key b))

/-- The views in a directory, given the files under it. -/
def views (s : Settings) (files : List Path) : List Path :=
  files.filter fun p => isView p && !s.isIgnored p

/-- The component in a file that was found through a directory. -/
def component? (s : Settings) (dir p : Path) : Option FoundComponent :=
  (componentName? s.options.tagMarker p).map fun name =>
    { name := name
      path := p
      vendor := (p.relativeTo? dir).any fun relative => relative.hasComponent "vendor" }

/-- The components of a project, given the files under each directory. -/
def components (s : Settings) (filesUnder : Path → List Path) : List FoundComponent :=
  sorted FoundComponent.path <|
    s.componentDirs.flatMap fun dir => (views s (filesUnder dir)).filterMap (component? s dir)

/-- The pages of a project, given the files under each directory. -/
def pages (s : Settings) (filesUnder : Path → List Path) : List Path :=
  sorted id <|
    s.templateRoots.flatMap fun root =>
      (views s (filesUnder root)).filter fun p => (componentName? s.options.tagMarker p).isNone

variable {m : Type → Type} [Monad m]

/-- The files under each of some directories. -/
def listing (disk : Disk m) (dirs : List Path) : m (Path → List Path) := do
  let found ← dirs.mapM fun dir => return (dir, ← disk.filesUnder dir)
  return fun dir => ((found.find? fun entry => entry.1 = dir).map Prod.snd).getD []

end Discovery

end Stencil
