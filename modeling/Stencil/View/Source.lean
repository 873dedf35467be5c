import Stencil.Files.Path
/-
  Where the markup of a view comes from: it is given, or it is found by a path.
-/

namespace Stencil

/-- Where markup comes from. -/
inductive ViewSource where
  | inline (markup : String)
  | path (p : Path)
deriving DecidableEq, Repr, Inhabited

namespace ViewSource

/-- How a source is shown. -/
def display : ViewSource → String
  | .inline _ => "<inline>"
  | .path p => p.text

/-- The path of a source that has one. -/
def path? : ViewSource → Option Path
  | .path p => some p
  | .inline _ => none

end ViewSource

end Stencil
