import GoDraft.Command.Usage
import GoDraft.Files.Path
import GoDraft.Sample

/-!
# GoDraft — the commands

The three commands with their options, and how they are read from the arguments of the program.

* `Command` — what can be asked for;
* `Invocation.ofArguments` — what some arguments ask for.
-/

namespace GoDraft

/-- What a draft of files is asked for with. -/
structure TranslateRequest where
  path : Path
  output? : Option Path := none
  stdout : Bool := false
  format : Text := "pretty".toList
  reindent : Bool := false
  excludes : List Text := []
  config? : Option Path := none
  noCapitalize : Bool := false
  valueReceivers : Bool := false
  stripComments : Bool := false
  libraryCalls : Bool := false
  deriving DecidableEq, Repr

/-- What can be asked for. -/
inductive Command where
  | translate (request : TranslateRequest)
  /-- Lays out a Go file, in place or to the standard output. -/
  | fmt (path : Path) (write : Bool)
  /-- Writes or prints a sample, or lists all. -/
  | template (name : Text) (output? : Option Path) (list : Bool)
  deriving DecidableEq, Repr

/-- A command, and how much it is to tell about itself. -/
structure Invocation where
  verbosity : Nat
  command : Command
  deriving DecidableEq, Repr

namespace Invocation

/-! ## Options -/

/-- The option that every command has, to tell more. -/
def verboseChoice : Choice := { name := "verbose", short? := some 'v', action := .count }

/-- The option that every command has, to ask for help. -/
def helpChoice : Choice := { name := "help", short? := some 'h', action := .help }

/-- An option that is there or not. -/
def flagChoice (name : Text) (short? : Option Char) : Choice := { name, short?, action := .flag }

/-- An option for a path. -/
def pathChoice (name : Text) (short : Char) : Choice :=
  { name, short? := some short, action := .value true false }

/-- The names of the commands. -/
def commandNames : List Text := ["translate".toList, "fmt".toList, "template".toList, "help".toList]

/-- What stands before a command. -/
def topUsage : Usage :=
  { options :=
      [verboseChoice, helpChoice, { name := "version", short? := some 'V', action := .version }]
    commands := commandNames }

/-- The options of a draft of files. -/
def translateUsage : Usage :=
  { options :=
      [verboseChoice, helpChoice, pathChoice "output" 'o', flagChoice "stdout" none,
       { name := "format", short? := some 'f', action := .value false false },
       flagChoice "reindent" none, { name := "exclude", action := .value false true },
       pathChoice "config" 'c', flagChoice "no-capitalize" none, flagChoice "value-receivers" none,
       flagChoice "strip-comments" none, flagChoice "library-calls" none]
    word? := some { name := "path", isLong := false, action := .value true false } }

/-- The options of the layout of a file. -/
def fmtUsage : Usage :=
  { options := [verboseChoice, helpChoice, flagChoice "write" (some 'w')]
    word? := some { name := "path", isLong := false, action := .value true false } }

/-- The options of the samples. -/
def templateUsage : Usage :=
  { options :=
      [verboseChoice, helpChoice, pathChoice "output" 'o', flagChoice "list" (some 'l')]
    word? := some { name := "name", isLong := false, action := .value false false } }

/-! ## Commands -/

/-- The path that a command needs. -/
def neededPath (r : ArgumentReading) : Except UsageError Path :=
  match r.value? "path" with
  | some path => .ok path
  | none => .error .missingArgument

/-- The command for a draft of files. -/
def translateCommand (r : ArgumentReading) : Except UsageError Command := do
  if r.has "stdout" && r.has "output" then throw .conflict
  return .translate {
    path := ← neededPath r
    output? := r.value? "output"
    stdout := r.has "stdout"
    format := (r.value? "format").getD "pretty"
    reindent := r.has "reindent"
    excludes := r.values "exclude"
    config? := r.value? "config"
    noCapitalize := r.has "no-capitalize"
    valueReceivers := r.has "value-receivers"
    stripComments := r.has "strip-comments"
    libraryCalls := r.has "library-calls" }

/-- Reads a command of a name from its arguments. The verbosity given behind the name counts, and the
one before it where there is none. -/
def ofCommand (before : Nat) (name : Text) (args : List Text) : Except UsageError Invocation := do
  let read (u : Usage) (make : ArgumentReading → Except UsageError Command) :
      Except UsageError Invocation := do
    let r ← ({} : ArgumentReading).arguments u args
    let verbosity := if r.has "verbose" then r.count "verbose" else before
    return { verbosity, command := ← make r }
  if name = "translate".toList then read translateUsage translateCommand
  else if name = "fmt".toList then
    read fmtUsage fun r => do return .fmt (← neededPath r) (r.has "write")
  else
    read templateUsage fun r =>
      .ok (.template ((r.value? "name").getD Sample.usualName) (r.value? "output") (r.has "list"))

/-- What asking for help about something comes to: what is named has to be a command, which has no
commands of its own. -/
def helpAbout : List Text → UsageError
  | [] => .help
  | [name] => if commandNames.elem name then .help else .unknownCommand
  | _ => .unknownCommand

/-- Reads the options before a command, then the command. -/
def readTop (r : ArgumentReading) : List Text → Except UsageError Invocation
  | [] => .error (if r.given.isEmpty then .helpForNothing else .missingCommand)
  | arg :: rest =>
    if !r.trailing && commandNames.elem arg then
      if arg = "help".toList then .error (helpAbout rest)
      else ofCommand (r.count "verbose") arg rest
    else
      match r.argument topUsage arg with
      | .ok next => readTop next rest
      | .error e => .error e

/-- What some arguments ask for. -/
def ofArguments (args : List Text) : Except UsageError Invocation := readTop {} args

end Invocation

end GoDraft
