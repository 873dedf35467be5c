import Stencil.Files.Path
/-
  A tree of files.

  Files and directories are known by the names on the way to them from the root.  A path is followed one piece
  at a time, from the root or from the current directory: an empty piece and a dot stay, two dots go up,
  and a name goes down.  Each piece needs a directory to start from, so nothing can be found behind a
  file or behind a missing name, while the last name of a path may be one that is yet to be created.
-/

namespace Stencil

/-- The names on the way from the root to a file or a directory. -/
abbrev Place := List String

/-- Files with their bytes, directories, and the directory that relative paths start from. -/
structure Tree where
  files : List (Place × ByteArray) := []
  directories : List Place := []
  current : Place := []
deriving Inhabited

namespace Tree

/-- The bytes of the file at a place. -/
def bytesAt? (t : Tree) (place : Place) : Option ByteArray :=
  (t.files.find? fun file => file.1 == place).map Prod.snd

/-- Whether there is a directory at a place; there is always one at the root. -/
def hasDirectory (t : Tree) (place : Place) : Bool := place.isEmpty || t.directories.contains place

/-- The tree with a directory at a place. -/
def addDirectory (t : Tree) (place : Place) : Tree :=
  if t.hasDirectory place then t else { t with directories := t.directories ++ [place] }

/-- The tree with a file at a place. -/
def addFile (t : Tree) (place : Place) (bytes : ByteArray) : Tree :=
  { t with files := t.files.filter (fun file => file.1 != place) ++ [(place, bytes)] }

/-! ## Following paths -/

/-- The place where the pieces of a path lead from a place. -/
def follow (t : Tree) (place : Place) : List String → Option Place
  | [] => some place
  | piece :: pieces =>
    if t.hasDirectory place then
      if piece.isEmpty || piece == "." then follow t place pieces
      else if piece == ".." then follow t place.dropLast pieces
      else follow t (place ++ [piece]) pieces
    else none

/-- The place a path leads to; the empty path leads nowhere. -/
def locate (t : Tree) (p : Path) : Option Place :=
  if p.text.isEmpty then none
  else t.follow (if p.isAbsolute then [] else t.current) p.pieceTexts

/-- Whether a path leads to a file. -/
def isFile (t : Tree) (p : Path) : Bool :=
  match t.locate p with
  | some place => (t.bytesAt? place).isSome
  | none => false

/-- The text of the file a path leads to, if there is one and its bytes are UTF-8. -/
def read? (t : Tree) (p : Path) : Option String := do
  let place ← t.locate p
  let bytes ← t.bytesAt? place
  String.fromUTF8? bytes

/-- What is left of a place behind another one. -/
def below? : Place → Place → Option Place
  | [], names => some names
  | _ :: _, [] => none
  | a :: as, b :: bs => if a = b then below? as bs else none

/-- The files in a directory and in all directories in it, as paths that begin with the given one; a path to
    a file is its own answer. -/
def filesUnder (t : Tree) (p : Path) : List Path :=
  match t.locate p with
  | none => []
  | some place =>
    if (t.bytesAt? place).isSome then [p]
    else
      t.files.filterMap fun file =>
        (below? place file.1).map fun names => p.join ⟨"/".intercalate names⟩

/-! ## Changes -/

/-- Write a file, whose directory must be there. -/
def write? (t : Tree) (p : Path) (text : String) : Option Tree :=
  match t.locate p with
  | none => none
  | some place => if t.hasDirectory place then none else some (t.addFile place text.toUTF8)

/-- Create one directory, unless it is there. -/
def createDirectory? (t : Tree) (p : Path) : Option Tree :=
  match t.locate p with
  | none => none
  | some place => if (t.bytesAt? place).isSome then none else some (t.addDirectory place)

/-- Create a directory and those on the way to it, from the first on; those already created stay when one
    cannot be.  Whether all are there in the end. -/
def createAll (t : Tree) : List Path → Bool × Tree
  | [] => (true, t)
  | p :: ps =>
    match t.createDirectory? p with
    | some t => t.createAll ps
    | none => (false, t)

/-- Create a directory and all that are missing on the way to it. -/
def createDirectories (t : Tree) (p : Path) : Bool × Tree := t.createAll p.upToEach

end Tree

end Stencil
