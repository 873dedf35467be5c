import Stencil.Project.Run
/-
  The command line: a run over the files of the computer.

  Everything is decided elsewhere; this module only asks the operating system what a run wants to know, and
  prints what a run has to tell.
-/

namespace Stencil.CommandLine

/-- What an action gives, unless it fails. -/
def attempt {α : Type} (action : IO α) : IO (Option α) := do
  match ← action.toBaseIO with
  | .ok a => return some a
  | .error _ => return none

/-- The files in a directory and in all directories in it.  A directory that contains itself by a link is left out
    where it comes up again. -/
partial def filesUnder (entered : List String) (p : Path) : IO (List Path) := do
  let some real ← attempt (IO.FS.realPath p.text) | return []
  match ← attempt real.readDir with
  | none => return if (← attempt (IO.FS.readBinFile p.text)).isSome then [p] else []
  | some entries =>
    if entered.contains real.toString then return []
    let inside ← entries.toList.mapM fun entry =>
      filesUnder (real.toString :: entered) (p.join ⟨entry.fileName⟩)
    return inside.flatten

/-- The files of the computer. -/
def disk : Disk IO where
  isFile p := return (← attempt (IO.FS.readBinFile p.text)).isSome
  read? p := return (← attempt (IO.FS.readBinFile p.text)).bind String.fromUTF8?
  filesUnder := filesUnder []
  createDirectories p :=
    if p.text.isEmpty then return true
    else return (← attempt (IO.FS.createDirAll p.text)).isSome
  write p text := return (← attempt (IO.FS.writeFile p.text text)).isSome

/-- How the program is used. -/
def usage : String :=
  "Usage: viewc [OPTIONS] [TEMPLATES]...\n\nOptions:\n" ++
    "".intercalate (CommandOption.all.map fun o =>
      let short :=
        match o.short? with
        | some c => "-" ++ String.singleton c ++ ", "
        | none => "    "
      "  " ++ short ++ "--" ++ o.long ++ (if o.takesValue then " <VALUE>" else "") ++ "\n")

/-- The words for a problem with the arguments. -/
def problemText : UsageProblem → String
  | .unknownArgument written => s!"unexpected argument '{written}' found"
  | .invalidValue (some o) value => s!"invalid value '{value}' for '--{o.long}'"
  | .invalidValue none value => s!"invalid template '{value}'"
  | .conflict o => s!"the argument '--{o.long}' cannot be used multiple times"
  | .unneededValue o value => s!"unexpected value '{value}' for '--{o.long}'"
  | .helpWanted => usage
  | .versionWanted => "viewc 0.1.0"

/-- Print the events of a run. -/
def tell (format : ReportFormat) (elapsed : Nat) (events : List Event) : IO Unit :=
  events.forM fun event =>
    match event.line format elapsed with
    | (.output, text) => IO.println text
    | (.error, text) => IO.eprintln text

/-- Run with arguments; the status that the program ends with. -/
def run (a : Arguments) : IO UInt32 := do
  let workspace ←
    match a.workspace with
    | some p => pure p
    | none => pure ⟨(← IO.currentDir).toString⟩
  let start ← IO.monoMsNow
  let (events, result) ← Run.run disk workspace a
  let stop ← IO.monoMsNow
  tell a.format (stop - start) events
  match result with
  | .ok r => return if r.errors = 0 then 0 else 1
  | .error e =>
    IO.eprintln s!"Error: {e.message}"
    return 1

end Stencil.CommandLine

open Stencil CommandLine in
/-- The program. -/
def main (words : List String) : IO UInt32 := do
  match Arguments.parse words with
  | .ok a => CommandLine.run a
  | .error .helpWanted => IO.print usage; return 0
  | .error .versionWanted => IO.println (problemText .versionWanted); return 0
  | .error problem =>
    IO.eprintln s!"error: {problemText problem}"
    return 2
