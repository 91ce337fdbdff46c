import GoDraft.Command.Help
import GoDraft.Command.Run
import GoDraft.Files.Changes

/-!
# GoDraft — the program

Takes a picture of the working folder, runs the command on it, and writes what changed. Files that the
command cannot read are known by name only.
-/

namespace GoDraft

/-- The path of a location below the working folder. -/
def locationPath (loc : Location) : String := String.ofList (Text.join ['/'] ("." :: loc))

/-- The folder at a location, with the contents of the files that are wanted. Links to folders are not
followed. -/
partial def loadFolder (wanted : Location → Bool) (loc : Location) : IO Folder := do
  let here ← IO.currentDir
  let mut folder := Folder.empty
  for entry in ← (here / locationPath loc).readDir do
    let name := entry.fileName.toList
    let place := loc ++ [name]
    if (← entry.path.symlinkMetadata).type matches .dir then
      folder := folder.set name (.folder (← loadFolder wanted place))
    else if !(← entry.path.isDir) then
      let content ← if wanted place then IO.FS.readBinFile entry.path else pure .empty
      folder := folder.set name (.file content.toList)
  return folder

/-- Writes what is new. No command removes anything. -/
def saveChange : Change → IO Unit
  | .gone .. => pure ()
  | .new loc (.folder _) => IO.FS.createDirAll (locationPath loc)
  | .new loc (.file content) => IO.FS.writeBinFile (locationPath loc) ⟨content.toArray⟩

/-- A record as a line of the error output. -/
def recordLine (r : LogRecord) : Text :=
  line ("[" ++ Sample.padded 5 r.level.name ++ "] " ++ r.message)

/-- Prints texts to the standard output and the error output. -/
def printTexts (stdout stderr : Text) : IO Unit := do
  IO.print stdout.toString
  IO.eprint stderr.toString

/-- Runs the command that the arguments ask for. -/
def runArguments (args : List String) : IO ExitCode := do
  match Invocation.ofArguments (args.map String.toList) with
  | .error e =>
    printTexts e.stdout e.stderr
    return e.exit
  | .ok invocation =>
    let color := (← (← IO.getStdout).isTty) && (← IO.getEnv "NO_COLOR").isNone
    let folder ← loadFolder invocation.command.mayRead []
    let finish := invocation.run color folder
    (folder.changes finish.folder).forM saveChange
    printTexts finish.stdout (finish.log.flatMap recordLine ++ finish.stderr)
    return finish.exit

end GoDraft

def main (args : List String) : IO UInt32 := do
  return (← GoDraft.runArguments args).number.toUInt32
