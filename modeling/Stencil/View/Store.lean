import Stencil.Template.Siblings
import Stencil.View.Error
import Stencil.View.Source
/-
  The store of compiled templates.

  A template is kept under the path it was asked for by, under its markup, or under the name of its
  component.  Paths are told apart by their components only.  A template that does not compile is not
  kept.
-/

namespace Stencil

/-- What a compiled template is kept under. -/
inductive StoreKey where
  | path (p : Path)
  | inline (markup : String)
  | component (name : String)
deriving DecidableEq, Repr

namespace StoreKey

/-- Whether two keys are for the same template. -/
def same : StoreKey → StoreKey → Bool
  | .path p, .path q => p.same q
  | .inline a, .inline b => a == b
  | .component a, .component b => a == b
  | _, _ => false

/-- The key of a source. -/
def ofSource : ViewSource → StoreKey
  | .inline markup => .inline markup
  | .path p => .path p

end StoreKey

/-- Compiled templates by their keys, the latest first. -/
structure Store where
  entries : List (StoreKey × Template) := []
deriving Inhabited

namespace Store

/-- The template under a key. -/
def get? (s : Store) (key : StoreKey) : Option Template :=
  (s.entries.find? fun entry => entry.1.same key).map Prod.snd

/-- The store without a key. -/
def erase (s : Store) (key : StoreKey) : Store :=
  ⟨s.entries.filter fun entry => !entry.1.same key⟩

/-- Put a template under a key. -/
def insert (s : Store) (key : StoreKey) (t : Template) : Store :=
  ⟨(key, t) :: (s.erase key).entries⟩

/-- The number of templates kept. -/
def size (s : Store) : Nat := s.entries.length

/-- Take a template out; whether there was one. -/
def forget (s : Store) (key : StoreKey) : Bool × Store := ((s.get? key).isSome, s.erase key)

/-- The template under a key, or what `compile` gives, which is then kept under it. -/
def fetch (s : Store) (key : StoreKey) (compile : Unit → Except ViewError Template) :
    Except ViewError Template × Store :=
  match s.get? key with
  | some t => (.ok t, s)
  | none =>
    match compile () with
    | .ok t => (.ok t, s.insert key t)
    | .error e => (.error e, s)

end Store

end Stencil
