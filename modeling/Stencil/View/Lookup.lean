import Stencil.Files.Disk
import Stencil.View.Engine
/-
  Looking up the markup of a view on disk.

  An absolute path is taken as it is; a relative one is tried in each root directory in order, and as it is
  where there are no roots.  Where a path has no extension, the file with the extension of views is tried
  first.  The first candidate that is a file counts, even if it cannot be read.
-/

namespace Stencil.Lookup

/-- The extension of the files of views. -/
def extension : String := "view.html"

/-- The files that a path may stand for, in the order in which they are tried. -/
def candidates (roots : List Path) (p : Path) : List Path :=
  let bases := if p.isAbsolute || roots.isEmpty then [p] else roots.map fun root => root.join p
  bases.flatMap fun base =>
    if base.extension?.isNone then [⟨base.text ++ "." ++ extension⟩, base] else [base]

variable {m : Type → Type} [Monad m]

/-- The first of some paths that leads to a file, with its text. -/
def loadFirst (disk : Disk m) (p : Path) : List Path → m (Except ViewError Loaded)
  | [] => return .error (.notFound p)
  | candidate :: more => do
    if ← disk.isFile candidate then
      match ← disk.read? candidate with
      | some markup => return .ok ⟨candidate, markup⟩
      | none => return .error (.unreadable candidate)
    else loadFirst disk p more

/-- The markup that a path stands for. -/
def load (disk : Disk m) (roots : List Path) (p : Path) : m (Except ViewError Loaded) :=
  loadFirst disk p (candidates roots p)

end Stencil.Lookup

namespace Stencil

/-- What was found for some paths beforehand; nothing is found for any other. -/
def Loader.gathered (found : List (Path × Except ViewError Loaded)) : Loader :=
  ⟨fun p =>
    match found.find? fun entry => entry.1 = p with
    | some (_, result) => result
    | none => .error (.notFound p)⟩

end Stencil
