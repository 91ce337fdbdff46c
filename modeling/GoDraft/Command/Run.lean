import GoDraft.Batch.Collect
import GoDraft.Batch.Report
import GoDraft.Batch.Run
import GoDraft.Command.Arguments
import GoDraft.Command.ExitCode
import GoDraft.SettingsFile

/-!
# GoDraft — running a command

A command reads and changes a folder and prints texts. Everything it does is in its result, so that
running a command is a function.

* `Invocation.run` — runs a command.
-/

namespace GoDraft

/-- What a command leaves behind. -/
structure Finish where
  folder : Folder
  exit : ExitCode := .success
  stdout : Text := []
  stderr : Text := []
  log : Log := []
  deriving DecidableEq, Repr

namespace Finish

/-- The end of a command that cannot be carried out. -/
def error (folder : Folder) (message : Text) : Finish :=
  { folder, exit := .error, stderr := line ("Error: " ++ message) }

/-- The end with records before its own. -/
def after (f : Finish) (log : Log) : Finish := { f with log := log ++ f.log }

end Finish

/-! ## Settings -/

/-- The names of settings files that are looked for. -/
def settingsFileNames : List Path := ["./java2go.yaml".toList, "./.java2go.yaml".toList]

namespace TranslateRequest

/-- The settings file of a request: the one it names, or one that is found. -/
def settingsPath? (q : TranslateRequest) (f : Folder) : Option Path :=
  q.config?.or (settingsFileNames.find? f.isFile)

/-- The settings after the options of a request have had their say. -/
def override (q : TranslateRequest) (s : Settings) : Settings :=
  { keepComments := s.keepComments && !q.stripComments
    pointerReceivers := s.pointerReceivers && !q.valueReceivers
    exportFields := s.exportFields && !q.noCapitalize
    libraryCalls := s.libraryCalls || q.libraryCalls }

/-- Reads a settings file. -/
def readSettings (f : Folder) (path : Path) : Except Text Settings :=
  match f.readText path with
  | .error e => .error ("reading " ++ path ++ ": " ++ e.message)
  | .ok t =>
    match Settings.ofYaml t with
    | .error e => .error ("parsing " ++ path ++ ": " ++ e.message)
    | .ok s => .ok s

/-- The settings of a request, or what is wrong with its settings file, and the records about it. -/
def settings (q : TranslateRequest) (f : Folder) : Except Text Settings × Log :=
  match q.settingsPath? f with
  | none => (.ok (q.override {}), [])
  | some path => ((readSettings f path).map q.override, [⟨.info, "using config " ++ path⟩])

/-! ## Drafting files -/

/-- Where the Go text of a request goes. One file can only be named for one file. -/
def target (q : TranslateRequest) (isFolder : Bool) : Target :=
  if q.stdout then .stdout
  else
    match q.output? with
    | none => .beside
    | some out =>
      if !isFolder && out.extension? == some "go".toList then .file out else .dir out

/-- The files of a request. -/
def files (q : TranslateRequest) : Entry → Except Text (List Path)
  | .file _ => .ok [q.path]
  | .folder inside => (Glob.ofTexts q.excludes).map fun globs => collectFiles globs q.path inside

/-- Drafts some files and reports on them. -/
def draftFiles (q : TranslateRequest) (color : Bool) (f : Folder) (settings : Settings)
    (target : Target) (files : List Path) : Finish :=
  let batch : Batch :=
    { drafter := { settings, reindent := q.reindent }, base := q.path, target }
  let step := batch.run f files
  let outcomes := step.result
  let isJson := q.format == "json".toList
  { folder := step.folder
    exit := if (Summary.ofOutcomes outcomes).passed then .success else .failed
    stdout := if isJson then Report.json q.path outcomes else Report.prettyOutput outcomes
    stderr := if isJson then [] else Report.pretty color q.path outcomes
    log := step.log }

/-- Drafts what a request asks for. -/
def run (q : TranslateRequest) (color : Bool) (f : Folder) : Finish :=
  if q.format ≠ "pretty".toList ∧ q.format ≠ "json".toList then
    .error f ("invalid format " ++ q.format.quoted ++ ", must be 'pretty' or 'json'")
  else
    let (settings, log) := q.settings f
    Finish.after
      (match settings with
        | .error message => .error f message
        | .ok settings =>
          match f.stat q.path with
          | .error e => .error f ("cannot access path " ++ q.path.quotedName ++ ": " ++ e.message)
          | .ok entry =>
            match q.files entry with
            | .error message => .error f message
            | .ok [] => { folder := f, stderr := line "Warning: no Java files to translate" }
            | .ok files => q.draftFiles color f settings (q.target entry.isFolder) files)
      log

end TranslateRequest

/-! ## Laying out a file -/

/-- Lays out a Go file, in place or to the standard output. -/
def layoutFile (f : Folder) (path : Path) (write : Bool) : Finish :=
  match f.readText path with
  | .error e => .error f ("opening " ++ path ++ ": " ++ e.message)
  | .ok code =>
    if code.isBlank then { folder := f, stderr := line "No Go code to format!" }
    else
      let out := reindent code.trim
      if write then
        match f.writeFile path out.bytes with
        | .error e => .error f ("saving " ++ path ++ ": " ++ e.message)
        | .ok g => { folder := g, stderr := line ("Go code formatted: " ++ path) }
      else { folder := f, stdout := out }

/-! ## Samples -/

namespace Sample

/-- The list of all samples. -/
def listing : Text :=
  line "Available templates:" ++ "\n" ++ all.flatMap listLine ++ "\n" ++ line "Usage:"
    ++ line "  java2go template <name> [--output <file>]"

/-- What to do with a sample that was written. -/
def nextSteps (s : Sample) (output : Path) : Text :=
  line ("Loaded " ++ s.name ++ " template into " ++ output) ++ "\n" ++ line "Next steps:"
    ++ line ("  1. Edit " ++ output ++ " as needed")
    ++ line ("  2. Run: java2go translate " ++ output)

/-- The folder with the folders that a new file needs. -/
def prepareFolder (f : Folder) (output : Path) : Folder × Except FileError Unit :=
  let parent := output.parent?.getD []
  if parent.components == [.here] then (f, .ok ()) else f.makeFolders parent

/-- Writes a sample to a new file. -/
def writeTo (s : Sample) (f : Folder) (output : Path) : Finish :=
  match f.stat output with
  | .ok _ =>
    { folder := f
      exit := .error
      stderr :=
        line ("Error: file already exists: " ++ output)
          ++ line "Remove it or use --output to specify a different path" }
  | .error _ =>
    match prepareFolder f output with
    | (g, .error e) => .error g ("failed to create directory: " ++ e.message)
    | (g, .ok ()) =>
      match g.writeFile output s.content.bytes with
      | .error e => .error g ("failed to write template: " ++ e.message)
      | .ok h => { folder := h, stdout := s.nextSteps output }

/-- Prints or writes the sample with a name. -/
def load (f : Folder) (name : Text) (output? : Option Path) : Finish :=
  match find? name with
  | none =>
    { folder := f
      exit := .error
      stderr :=
        line ("Error: unknown template " ++ name.quoted)
          ++ line "Run 'java2go template --list' to see available templates" }
  | some s =>
    match output? with
    | none => { folder := f, stdout := s.content }
    | some output => s.writeTo f output

end Sample

/-! ## Commands -/

/-- Whether a command may read the file at a location: a file that it names, a settings file or a Java
file. -/
def Command.mayRead (c : Command) (loc : Location) : Bool :=
  let named (p : Path) : Bool := p.location == loc
  match c with
  | .translate q =>
    named q.path || q.config?.any named || settingsFileNames.any named
      || (loc.getLast?.bind Path.extension?) == some "java".toList
  | .fmt path _ => named path
  | .template .. => false

/-- Runs a command in a folder. -/
def Command.run (color : Bool) (f : Folder) : Command → Finish
  | .translate request => request.run color f
  | .fmt path write => layoutFile f path write
  | .template name output? list =>
    if list then { folder := f, stdout := Sample.listing } else Sample.load f name output?

/-- Runs a command in a folder. The records that its verbosity asks for are kept. -/
def Invocation.run (i : Invocation) (color : Bool) (f : Folder) : Finish :=
  let finish := i.command.run color f
  { finish with log := finish.log.upTo (some (Level.ofVerbosity i.verbosity)) }

end GoDraft
