import Stencil.Files.Path
import Stencil.Text.Slice
/-
  The arguments of the command line.

  Words that are no options are templates.  An option that takes a value takes it from its own word, after an
  equals sign or, in its short form, directly; or else from the next word, unless that begins with a
  hyphen.  Short flags may share a word, and two hyphens alone make templates of all later words.

  A word is settled when the next one is understood, and only then is its value looked at: so an option that
  does not exist is reported before a bad value in the word in front of it.  An option whose value is in its
  own word is settled at once.
-/

namespace Stencil

/-- How pages and failures are reported. -/
inductive ReportFormat where
  /-- For people. -/
  | human
  /-- One object to a line. -/
  | json
deriving DecidableEq, Repr, Inhabited

/-- The options of the command line. -/
inductive CommandOption where
  | workspace
  | config
  | data
  | outDir
  | check
  | components
  | root
  | ignore
  | watch
  | output
  | timings
  | verbose
  | preserveWatchOutput
  | help
  | version
deriving DecidableEq, Repr

namespace CommandOption

/-- All options. -/
def all : List CommandOption :=
  [.workspace, .config, .data, .outDir, .check, .components, .root, .ignore, .watch, .output, .timings,
    .verbose, .preserveWatchOutput, .help, .version]

/-- The long form of an option, without its hyphens. -/
def long : CommandOption → String
  | .workspace => "workspace"
  | .config => "config"
  | .data => "data"
  | .outDir => "out-dir"
  | .check => "check"
  | .components => "components"
  | .root => "root"
  | .ignore => "ignore"
  | .watch => "watch"
  | .output => "output"
  | .timings => "timings"
  | .verbose => "verbose"
  | .preserveWatchOutput => "preserve-watch-output"
  | .help => "help"
  | .version => "version"

/-- The short form of an option, if it has one. -/
def short? : CommandOption → Option Char
  | .workspace => some 'w'
  | .config => some 'c'
  | .data => some 'd'
  | .outDir => some 'o'
  | .verbose => some 'v'
  | .help => some 'h'
  | .version => some 'V'
  | _ => none

/-- Whether an option takes a value. -/
def takesValue : CommandOption → Bool
  | .workspace | .config | .data | .outDir | .components | .root | .ignore | .output => true
  | _ => false

/-- Whether an option may be given more than once. -/
def repeats : CommandOption → Bool
  | .components | .root | .ignore => true
  | _ => false

/-- The option with a long form. -/
def ofLong? (name : String) : Option CommandOption := all.find? fun o => o.long == name

/-- The option with a short form. -/
def ofShort? (c : Char) : Option CommandOption := all.find? fun o => o.short? == some c

end CommandOption

/-- Why arguments are refused, or what they ask for in place of a run. -/
inductive UsageProblem where
  | unknownArgument (written : String)
  /-- A value that the option, or the list of templates, does not take; also a value that is missing. -/
  | invalidValue (option : Option CommandOption) (value : String)
  /-- An option that may be given once is given again. -/
  | conflict (option : CommandOption)
  /-- A value for an option that takes none. -/
  | unneededValue (option : CommandOption) (value : String)
  | helpWanted
  | versionWanted
deriving DecidableEq, Repr

/-- The arguments of a run. -/
structure Arguments where
  templates : List Path := []
  workspace : Option Path := none
  config : Option Path := none
  data : Option Path := none
  outDir : Option Path := none
  check : Bool := false
  componentDirs : List Path := []
  templateRoots : List Path := []
  ignore : List String := []
  watch : Bool := false
  format : ReportFormat := .human
  timings : Bool := false
  verbose : Bool := false
  preserveWatchOutput : Bool := false
deriving DecidableEq, Repr, Inhabited

namespace Arguments

/-- A word that is not settled. -/
inductive Pending where
  | nothing
  /-- An option that takes its value from the next word. -/
  | awaiting (option : CommandOption)
  | value (option : CommandOption) (value : String)
  | templates (words : List String)
deriving DecidableEq, Repr

/-- What has been read of the command line. -/
structure Reader where
  arguments : Arguments := {}
  /-- The options that were settled. -/
  given : List CommandOption := []
  pending : Pending := .nothing
deriving Repr

/-- A path that an option takes; the empty one is refused. -/
def path (option : Option CommandOption) (value : String) : Except UsageProblem Path :=
  if value.isEmpty then .error (.invalidValue option value) else .ok ⟨value⟩

/-- The arguments with an option that takes a value. -/
def withValue (a : Arguments) (option : CommandOption) (value : String) :
    Except UsageProblem Arguments :=
  let taken := path (some option) value
  match option with
  | .workspace => taken.map fun p => { a with workspace := some p }
  | .config => taken.map fun p => { a with config := some p }
  | .data => taken.map fun p => { a with data := some p }
  | .outDir => taken.map fun p => { a with outDir := some p }
  | .components => taken.map fun p => { a with componentDirs := a.componentDirs ++ [p] }
  | .root => taken.map fun p => { a with templateRoots := a.templateRoots ++ [p] }
  | .ignore => .ok { a with ignore := a.ignore ++ [value] }
  | .output =>
    match value with
    | "human" => .ok { a with format := .human }
    | "json" => .ok { a with format := .json }
    | _ => .error (.invalidValue (some .output) value)
  | _ => .ok a

/-- The arguments with a flag. -/
def withFlag (a : Arguments) (option : CommandOption) : Except UsageProblem Arguments :=
  match option with
  | .check => .ok { a with check := true }
  | .watch => .ok { a with watch := true }
  | .timings => .ok { a with timings := true }
  | .verbose => .ok { a with verbose := true }
  | .preserveWatchOutput => .ok { a with preserveWatchOutput := true }
  | .help => .error .helpWanted
  | .version => .error .versionWanted
  | _ => .ok a

/-- The arguments with more templates. -/
def withTemplates (a : Arguments) : List String → Except UsageProblem Arguments
  | [] => .ok a
  | word :: words => do
    let p ← path none word
    withTemplates { a with templates := a.templates ++ [p] } words

namespace Reader

/-- Settle an option, unless it was given before and may not be given again. -/
def settleOption (r : Reader) (option : CommandOption)
    (change : Arguments → Except UsageProblem Arguments) : Except UsageProblem Reader :=
  if r.given.contains option && !option.repeats then .error (.conflict option)
  else
    (change r.arguments).map fun a =>
      { arguments := a, given := option :: r.given, pending := .nothing }

/-- Settle the word that is not settled. -/
def settle (r : Reader) : Except UsageProblem Reader :=
  match r.pending with
  | .nothing => .ok r
  | .awaiting option => .error (.invalidValue (some option) "")
  | .value option value => r.settleOption option fun a => a.withValue option value
  | .templates words =>
    (r.arguments.withTemplates words).map fun a => { r with arguments := a, pending := .nothing }

/-- An option with the value that its own word holds, if it holds one. -/
def option (r : Reader) (option : CommandOption) (value : Option String) :
    Except UsageProblem Reader := do
  let r ← r.settle
  if option.takesValue then
    match value with
    | some value => r.settleOption option fun a => a.withValue option value
    | none => .ok { r with pending := .awaiting option }
  else r.settleOption option fun a => a.withFlag option

/-- A word that begins with two hyphens, without these. -/
def longWord (r : Reader) (word : List Char) : Except UsageProblem Reader :=
  let name := String.ofList (word.takeWhile (· != '='))
  let value :=
    match word.dropWhile (· != '=') with
    | _ :: value => some (String.ofList value)
    | [] => none
  match CommandOption.ofLong? name with
  | none => .error (.unknownArgument ("--" ++ name))
  | some option =>
    match value with
    | some value =>
      if option.takesValue then r.option option (some value)
      else .error (.unneededValue option value)
    | none => r.option option none

/-- A word that begins with one hyphen, without it: flags, and perhaps an option with its value. -/
def shortWord (r : Reader) : List Char → Except UsageProblem Reader
  | [] => .ok r
  | c :: cs =>
    match CommandOption.ofShort? c with
    | none => .error (.unknownArgument ("-" ++ String.singleton c))
    | some option =>
      if option.takesValue then
        match cs with
        | [] => r.option option none
        | '=' :: value => r.option option (some (String.ofList value))
        | value => r.option option (some (String.ofList value))
      else
        match r.option option none with
        | .ok r => shortWord r cs
        | .error e => .error e

/-- A word that is a template. -/
def template (r : Reader) (word : String) : Except UsageProblem Reader :=
  match r.pending with
  | .templates words => .ok { r with pending := .templates (words ++ [word]) }
  | _ => r.settle.map fun r => { r with pending := .templates [word] }

/-- A word that does not begin with a hyphen: the value that is awaited, or a template. -/
def plainWord (r : Reader) (word : String) : Except UsageProblem Reader :=
  match r.pending with
  | .awaiting option => .ok { r with pending := .value option word }
  | _ => r.template word

/-- Read templates only. -/
def readTemplates (r : Reader) : List String → Except UsageProblem Reader
  | [] => r.settle
  | word :: words =>
    match r.template word with
    | .ok r => readTemplates r words
    | .error e => .error e

/-- Read words. -/
def read (r : Reader) : List String → Except UsageProblem Reader
  | [] => r.settle
  | word :: words =>
    if word == "--" then r.readTemplates words
    else
      let next :=
        match word.toList with
        | '-' :: '-' :: name => r.longWord name
        | '-' :: c :: cs => r.shortWord (c :: cs)
        | _ => r.plainWord word
      match next with
      | .ok r => read r words
      | .error e => .error e

end Reader

/-- The arguments that the words of a command line make. -/
def parse (words : List String) : Except UsageProblem Arguments :=
  (Reader.read {} words).map Reader.arguments

end Arguments

end Stencil
