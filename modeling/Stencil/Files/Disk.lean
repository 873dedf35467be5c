import Stencil.Files.Tree
/-
  What is asked of a place where files are kept.

  The operations are those that a project needs, in any monad, so that what is said about a tree of files in memory
  holds for the same program over the files of a computer, as far as these behave like a tree.
-/

namespace Stencil

/-- Where files are kept. -/
structure Disk (m : Type → Type) where
  /-- Whether a path leads to a file. -/
  isFile : Path → m Bool
  /-- The text of a file, if it can be read and is text. -/
  read? : Path → m (Option String)
  /-- The files in a directory and in all directories in it. -/
  filesUnder : Path → m (List Path)
  /-- Create a directory and all that are missing on the way to it; whether it is there in the end. -/
  createDirectories : Path → m Bool
  /-- Write a file; whether it was written. -/
  write : Path → String → m Bool

/-- A tree of files as the place where files are kept. -/
def Tree.disk : Disk (StateM Tree) where
  isFile p := return (← get).isFile p
  read? p := return (← get).read? p
  filesUnder p := return (← get).filesUnder p
  createDirectories p := modifyGet fun t => t.createDirectories p
  write p text := modifyGet fun t =>
    match t.write? p text with
    | some t => (true, t)
    | none => (false, t)

end Stencil
