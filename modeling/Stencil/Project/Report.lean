import Stencil.Json.Printer
import Stencil.Project.Arguments
import Stencil.Source.Lines
import Stencil.View.Error
/-
  What a run tells about its pages.

  A run makes a list of events.  An event is a line for the output or for the error output, worded for people
  or as an object; the time that has passed is only known when the line is written.
-/

namespace Stencil

/-- A page or a component that failed. -/
structure Failure where
  file : Path
  /-- Where in the file the error points, if it does. -/
  position : Option Position
  error : ViewError
deriving DecidableEq, Repr

/-- What happens in a run. -/
inductive Event where
  | rendered (file : Path) (html : String)
  | written (file out : Path)
  | failed (failure : Failure)
  | timing
  | summary (files errors : Nat)
deriving DecidableEq, Repr

/-- The two outputs of a program. -/
inductive Channel where
  | output
  | error
deriving DecidableEq, Repr

namespace Failure

/-- A failure in the words of people: where it is, and what is wrong there. -/
def text (f : Failure) : String :=
  let place :=
    match f.position with
    | some p => s!"{f.file.text}:{p.display}"
    | none => f.file.text
  place ++ ": \x1b[31merror\x1b[0m[" ++ f.error.code ++ "]: " ++ f.error.message

/-- A failure as an object; lines and columns are counted from one. -/
def json (f : Failure) : Json :=
  let number (n : Option Nat) : Json :=
    match n with
    | some n => .int n
    | none => .null
  .object [("type", .text "error"), ("file", .text f.file.text), ("code", .text f.error.code),
    ("message", .text f.error.message),
    ("line", number (f.position.map fun p => p.line + 1)),
    ("column", number (f.position.map fun p => p.column + 1))]

end Failure

namespace Event

/-- A number of milliseconds, as it is shown. -/
def milliseconds (elapsed : Nat) : String := Decimal.natText elapsed ++ "ms"

/-- The summary of a run in the words of people. -/
def summaryText (elapsed files errors : Nat) : String :=
  let files := Decimal.natText files
  if errors = 0 then "\x1b[32m✓\x1b[0m " ++ files ++ " templates OK (" ++ milliseconds elapsed ++ ")"
  else
    "\x1b[31m✗\x1b[0m Found " ++ Decimal.natText errors ++ " error" ++
      (if errors = 1 then "" else "s") ++ " in " ++ files ++ " templates\n" ++
      "Time: " ++ milliseconds elapsed

/-- The line of an event for people, and where it goes.  Pages go to the output, all else does not. -/
def humanLine (elapsed : Nat) : Event → Channel × String
  | .rendered _ html => (.output, html)
  | .written file out => (.error, s!"{file.text} -> {out.text}")
  | .failed f => (.error, f.text)
  | .timing => (.error, "\nTiming: " ++ milliseconds elapsed)
  | .summary files errors => (.error, summaryText elapsed files errors)

/-- The line of an event as an object, and where it goes.  The time alone is still told in words. -/
def jsonLine (elapsed : Nat) : Event → Channel × String
  | .rendered file html =>
    (.output, (Json.object [("type", .text "render"), ("file", .text file.text),
      ("html", .text html)]).line)
  | .written file out =>
    (.output, (Json.object [("type", .text "write"), ("file", .text file.text),
      ("out", .text out.text)]).line)
  | .failed f => (.output, f.json.line)
  | .timing => humanLine elapsed .timing
  | .summary files errors =>
    (.output, (Json.object [("type", .text "summary"), ("files", .int files),
      ("errors", .int errors), ("duration_ms", .int elapsed)]).line)

/-- The line of an event, and where it goes. -/
def line (format : ReportFormat) (elapsed : Nat) (e : Event) : Channel × String :=
  match format with
  | .human => e.humanLine elapsed
  | .json => e.jsonLine elapsed

end Event

end Stencil
