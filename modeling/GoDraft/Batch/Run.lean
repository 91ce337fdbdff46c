import GoDraft.Batch.Outcome
import GoDraft.Draft
import GoDraft.Files.Folder

/-!
# GoDraft — a batch of files

Every file is read, drafted and written on its own. Nothing is written for a file that cannot be read
or drafted.

* `Batch.outputPath?` — where the Go text of a file goes;
* `Batch.draftFile` — one file;
* `Batch.run` — all files of a batch.
-/

namespace GoDraft

/-- Where Go text goes. -/
inductive Target where
  /-- Next to each file. -/
  | beside
  /-- Into a folder, along the paths relative to the base. -/
  | dir (path : Path)
  /-- Into one file. -/
  | file (path : Path)
  /-- To the standard output. -/
  | stdout
  deriving DecidableEq, Repr

/-- How a batch is drafted. -/
structure Batch where
  drafter : Drafter
  /-- The folder, or the file, that was asked for. -/
  base : Path
  target : Target

/-- A file system after a step, what came out and the records of the step. -/
structure Step (α : Type) where
  folder : Folder
  result : α
  log : Log

namespace Batch

/-- Where the Go text of a file goes; nowhere if it is to be printed or the file has no name. -/
def outputPath? (base : Path) (target : Target) (input : Path) : Option Path :=
  let goName := input.withExtension "go"
  match target with
  | .beside => some goName
  | .file path => some path
  | .stdout => none
  | .dir dir =>
    let inside := (goName.relativeTo? base).filter fun p => !p.isEmpty
    (inside.or goName.fileName?).map dir.join

/-- Writes a text at a path, and makes the folders it is in. -/
def writeText (f : Folder) (p : Path) (t : Text) : Folder × Except FileError Unit :=
  match f.makeFolders (p.parent?.getD []) with
  | (g, .error e) => (g, .error e)
  | (g, .ok ()) =>
    match g.writeFile p t.bytes with
    | .error e => (g, .error e)
    | .ok h => (h, .ok ())

/-- Reads, drafts and writes one file. -/
def draftFile (b : Batch) (f : Folder) (input : Path) : Step Outcome :=
  match f.readText input with
  | .error e => ⟨f, .failure input ("reading file: " ++ e.message), []⟩
  | .ok source =>
    match b.drafter.run source with
    | (.error .nothingToTranslate, log) =>
      ⟨f, { input, status := .skipped, message? := some DraftError.nothingToTranslate.message },
        log ++ [⟨.debug, input ++ ": nothing to translate"⟩]⟩
    | (.error e, log) => ⟨f, .failure input e.message, log⟩
    | (.ok go, log) =>
      match outputPath? b.base b.target input with
      | none => ⟨f, { input, status := .translated, generated? := some go }, log⟩
      | some output =>
        match writeText f output go with
        | (g, .error e) =>
          ⟨g, .failure input ("writing " ++ output ++ ": " ++ e.message), log⟩
        | (g, .ok ()) =>
          ⟨g, { input, output? := some output, status := .translated },
            log ++ [⟨.debug, input ++ " -> " ++ output⟩]⟩

/-- Drafts files one after another. -/
def draftFiles (b : Batch) (f : Folder) : List Path → Step (List Outcome)
  | [] => ⟨f, [], []⟩
  | input :: rest =>
    let first := b.draftFile f input
    let others := b.draftFiles first.folder rest
    ⟨others.folder, first.result :: others.result, first.log ++ others.log⟩

/-- Drafts all files of a batch; the outcomes are in the order of paths. -/
def run (b : Batch) (f : Folder) (files : List Path) : Step (List Outcome) :=
  let step := b.draftFiles f files
  let outcomes := step.result.mergeSort fun x y => Path.le x.input y.input
  let summary : Text :=
    "translated " ++ decimalText (Summary.ofOutcomes outcomes).translated ++ " of "
      ++ decimalText outcomes.length ++ " files"
  ⟨step.folder, outcomes, step.log ++ [⟨.info, summary⟩]⟩

end Batch

end GoDraft
