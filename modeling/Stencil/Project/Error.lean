import Stencil.View.Error
/-
  What keeps a project from being run to its end.
-/

namespace Stencil

/-- Why a run did not take place or broke off. -/
inductive ProjectError where
  | unreadable (file : Path)
  /-- A file that does not hold what it should. -/
  | malformed (file : Path)
  /-- A file whose data is not an object. -/
  | invalidData (file : Path)
  | invalidPattern (pattern : String)
  /-- A component that could not be registered. -/
  | component (e : ViewError)
  | directoryNotCreated (directory : Path)
  | fileNotWritten (file : Path)
deriving DecidableEq, Repr

/-- The words for an error. -/
def ProjectError.message : ProjectError → String
  | .unreadable file => s!"Failed to read {file.text}"
  | .malformed file => s!"Failed to parse {file.text}"
  | .invalidData file => s!"Invalid data in {file.text}"
  | .invalidPattern pattern => s!"Invalid ignore pattern `{pattern}`"
  | .component e => e.message
  | .directoryNotCreated directory => s!"Failed to create {directory.text}"
  | .fileNotWritten file => s!"Failed to write {file.text}"

end Stencil
