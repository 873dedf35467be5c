import Stencil.Text.Slice
/-
  Paths of files.

  A path is kept as it was written, for it is shown that way; it is compared by its components.  Repeated
  slashes, dots inside and a slash at the end do not count; a dot at the front of a relative path does.
-/

namespace Stencil

/-- A path as it is written. -/
structure Path where
  text : String
deriving DecidableEq, Repr, Inhabited

namespace Path

/-- A component of a path. -/
inductive Component where
  | root
  | here
  | up
  | name (s : String)
deriving DecidableEq, Repr

/-- The order of components: the root, the dot, the two dots, and then names by their characters. -/
def Component.compare : Component → Component → Ordering
  | .name s, .name t => Ord.compare s t
  | a, b => Ord.compare (rank a) (rank b)
where
  /-- The place of the kind of a component in the order. -/
  rank : Component → Nat
    | .root => 0
    | .here => 1
    | .up => 2
    | .name _ => 3

/-- The text of a component inside a path. -/
def Component.text : Component → String
  | .root => "/"
  | .here => "."
  | .up => ".."
  | .name s => s

/-- The pieces of a text between slashes, each with the text up to its end. -/
def pieces (soFar piece : List Char) : List Char → List (List Char × List Char)
  | [] => [(piece.reverse, soFar.reverse)]
  | c :: cs =>
    if c == '/' then (piece.reverse, soFar.reverse) :: pieces (c :: soFar) [] cs
    else pieces (c :: soFar) (c :: piece) cs

/-- Whether a path begins at the root. -/
def isAbsolute (p : Path) : Bool := p.text.toList.head? == some '/'

/-- The components of a path, each with the text of the path up to its end. -/
def marked (p : Path) : List (Component × List Char) :=
  let named := fun (first : Bool) (entry : List Char × List Char) =>
    let (piece, upTo) := entry
    if piece.isEmpty then none
    else if piece == ['.'] then if first then some (Component.here, upTo) else none
    else if piece == ['.', '.'] then some (Component.up, upTo)
    else some (Component.name (String.ofList piece), upTo)
  match pieces [] [] p.text.toList with
  | [] => []
  | first :: rest =>
    if p.isAbsolute then (.root, ['/']) :: rest.filterMap (named false)
    else (named true first).toList ++ rest.filterMap (named false)

/-- The texts between the slashes of a path, dots and empty ones included. -/
def pieceTexts (p : Path) : List String :=
  (pieces [] [] p.text.toList).map fun entry => String.ofList entry.1

/-- The paths to the components of a path, from the first to the path itself. -/
def upToEach (p : Path) : List Path := p.marked.map fun entry => ⟨String.ofList entry.2⟩

/-- The components of a path. -/
def components (p : Path) : List Component := p.marked.map Prod.fst

/-- Whether two paths have the same components. -/
def same (p q : Path) : Bool := p.components == q.components

/-- The order of paths by their components. -/
def compare (p q : Path) : Ordering :=
  List.compareLex Component.compare p.components q.components

/-- The last component, if it is a name. -/
def fileName? (p : Path) : Option String :=
  match p.components.getLast? with
  | some (.name s) => some s
  | _ => none

/-- The path without its last component; the root has nothing around it, nor has the empty path. -/
def parent? (p : Path) : Option Path :=
  match p.marked.reverse with
  | [] => none
  | (.root, _) :: _ => none
  | _ :: (_, upTo) :: _ => some ⟨String.ofList upTo⟩
  | [_] => some ⟨""⟩

/-- A path seen from another: an absolute path is itself, any other is put behind a slash. -/
def join (base p : Path) : Path :=
  if p.isAbsolute || base.text.isEmpty then p
  else if base.text.toList.getLast? == some '/' then ⟨base.text ++ p.text⟩
  else ⟨base.text ++ "/" ++ p.text⟩

/-- The part of the name of a file after its last dot; a dot at the front of a name does not count. -/
def extension? (p : Path) : Option String :=
  match p.fileName? with
  | none => none
  | some name =>
    let reversed := name.toList.reverse
    let after := reversed.takeWhile (· != '.')
    match reversed.dropWhile (· != '.') with
    | _ :: _ :: _ => some (String.ofList after.reverse)
    | _ => none

/-- What is left of a list after another one at its front. -/
def dropFront {α : Type} [BEq α] : List α → List α → Option (List α)
  | [], xs => some xs
  | _ :: _, [] => none
  | a :: as, x :: xs => if a == x then dropFront as xs else none

/-- A path seen from a directory it lies in, as it is written from there on. -/
def relativeTo? (p base : Path) : Option Path :=
  let before := base.components
  match dropFront before p.components with
  | none => none
  | some [] => some ⟨""⟩
  | some (first :: _) =>
    let marked := p.marked
    let upTo := (marked.getLast?.map Prod.snd).getD []
    let start :=
      match marked[before.length]? with
      | some (_, stop) => stop.length - first.text.toList.length
      | none => 0
    some ⟨String.ofList (upTo.drop start)⟩

/-- The path with another file name in place of its own, or behind it where it has none. -/
def withFileName (p : Path) (name : String) : Path :=
  match p.fileName?, p.parent? with
  | some _, some parent => parent.join ⟨name⟩
  | _, _ => p.join ⟨name⟩

/-- Whether a path names a component anywhere. -/
def hasComponent (p : Path) (name : String) : Bool :=
  p.components.any fun c => c == .name name

end Path

end Stencil
