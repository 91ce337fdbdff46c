import GoDraft.Files.Path
import GoDraft.Text.Utf8

/-!
# GoDraft — folders and files

A file system below a working folder, as a value. A path is followed step by step from the working
folder, the way an operating system follows it; what lies outside the working folder does not exist.
Writing gives a new folder and leaves the old one as it was.

* `Folder.at?` — what stands at a location;
* `Folder.stat`, `Folder.readText`, `Folder.writeFile`, `Folder.makeFolders` — the operations on
  paths, with their errors.
-/

namespace GoDraft

/-- The entries of a folder, one after another. -/
inductive Folder where
  | empty
  | file (name : Text) (content : List UInt8) (rest : Folder)
  | folder (name : Text) (inside rest : Folder)
  deriving DecidableEq, Repr

/-- What can stand under a name. -/
inductive Entry where
  | file (content : List UInt8)
  | folder (inside : Folder)
  deriving DecidableEq, Repr

/-- Whether an entry is a folder. -/
def Entry.isFolder : Entry → Bool
  | .file _ => false
  | .folder _ => true

/-- The names on the way from the working folder to an entry. -/
abbrev Location := List Text

/-- The location that a path names if none of the folders on its way is missing. -/
def Path.location (p : Path) : Location :=
  p.components.foldl
    (fun loc step =>
      match step with
      | .name t => loc ++ [t]
      | .up => loc.dropLast
      | _ => loc) []

namespace Folder

/-! ## Entries -/

/-- The entry under a name. -/
def find? (name : Text) : Folder → Option Entry
  | .empty => none
  | .file n content rest => if n = name then some (.file content) else rest.find? name
  | .folder n inside rest => if n = name then some (.folder inside) else rest.find? name

/-- A folder with an entry under a name, in place of what stood there. -/
def set (name : Text) (entry : Entry) : Folder → Folder
  | .empty =>
    match entry with
    | .file content => .file name content .empty
    | .folder inside => .folder name inside .empty
  | .file n content rest =>
    if n = name then
      match entry with
      | .file content => .file name content rest
      | .folder inside => .folder name inside rest
    else .file n content (rest.set name entry)
  | .folder n inside rest =>
    if n = name then
      match entry with
      | .file content => .file name content rest
      | .folder inside => .folder name inside rest
    else .folder n inside (rest.set name entry)

/-- A folder without what stands under a name. -/
def erase (name : Text) : Folder → Folder
  | .empty => .empty
  | .file n content rest => if n = name then rest else .file n content (rest.erase name)
  | .folder n inside rest => if n = name then rest else .folder n inside (rest.erase name)

/-- What stands at a location. -/
def at? (f : Folder) : Location → Option Entry
  | [] => some (.folder f)
  | [name] => f.find? name
  | name :: rest =>
    match f.find? name with
    | some (.folder inside) => inside.at? rest
    | _ => none

/-- A folder with an entry at a location whose folders exist; otherwise the folder as it is. -/
def put (f : Folder) (entry : Entry) : Location → Folder
  | [] => f
  | [name] => f.set name entry
  | name :: rest =>
    match f.find? name with
    | some (.folder inside) => f.set name (.folder (inside.put entry rest))
    | _ => f

/-- A folder without what stands at a location. -/
def remove (f : Folder) : Location → Folder
  | [] => f
  | [name] => f.erase name
  | name :: rest =>
    match f.find? name with
    | some (.folder inside) => f.set name (.folder (inside.remove rest))
    | _ => f

/-- Everything below a folder with its location, folders before what they hold. -/
def entries (path : Location) : Folder → List (Location × Entry)
  | .empty => []
  | .file name content rest => (path ++ [name], .file content) :: rest.entries path
  | .folder name inside rest =>
    (path ++ [name], .folder inside) :: inside.entries (path ++ [name]) ++ rest.entries path

end Folder

/-! ## Errors -/

/-- Why an operation on a path fails. -/
inductive FileError where
  | notFound
  | alreadyExists
  | notAFolder
  | isAFolder
  | notText
  deriving DecidableEq, Repr

/-- The text of an error. -/
def FileError.message : FileError → Text
  | .notFound => "No such file or directory (os error 2)"
  | .alreadyExists => "File exists (os error 17)"
  | .notAFolder => "Not a directory (os error 20)"
  | .isAFolder => "Is a directory (os error 21)"
  | .notText => "stream did not contain valid UTF-8"

/-! ## Following a path -/

/-- A path ready to be followed: its steps, and whether it has to end at a folder. -/
structure Route where
  steps : List Text
  toFolder : Bool

/-- The route of a path. -/
def Path.route (p : Path) : Route :=
  { steps := (Text.pieces '/' p).filter fun piece => !piece.isEmpty
    toFolder := p.getLast? == some '/' }

/-- Where a path leads: to a location that is known to be a folder, or to a name in one. -/
inductive Goal where
  | folder (loc : Location)
  | name (dir : Location) (name : Text)

namespace Folder

/-- Follows steps from a folder at `loc`. All but the last have to be folders. -/
def follow (f : Folder) (loc : Location) : List Text → Except FileError Goal
  | [] => .ok (.folder loc)
  | step :: rest =>
    if step = ['.'] then f.follow loc rest
    else if step = ['.', '.'] then
      if loc.isEmpty then .error .notFound else f.follow loc.dropLast rest
    else if rest.isEmpty then .ok (.name loc step)
    else
      match f.at? (loc ++ [step]) with
      | none => .error .notFound
      | some (.file _) => .error .notAFolder
      | some (.folder _) => f.follow (loc ++ [step]) rest

/-- Where a path leads. A path outside the working folder leads nowhere. -/
def goal (f : Folder) (p : Path) : Except FileError Goal :=
  if p.isEmpty || p.isAbsolute then .error .notFound else f.follow [] p.route.steps

/-- The location that a path leads to, and what stands there. -/
def locate (f : Folder) (p : Path) : Except FileError (Location × Entry) := do
  let loc := match ← f.goal p with
    | .folder loc => loc
    | .name dir name => dir ++ [name]
  match f.at? loc with
  | none => .error .notFound
  | some entry => if p.route.toFolder && !entry.isFolder then .error .notAFolder
                  else .ok (loc, entry)

/-! ## Operations on paths -/

/-- What a path leads to. -/
def stat (f : Folder) (p : Path) : Except FileError Entry := Prod.snd <$> f.locate p

/-- Whether a path leads to a folder. -/
def isFolder (f : Folder) (p : Path) : Bool :=
  match f.stat p with
  | .ok entry => entry.isFolder
  | .error _ => false

/-- Whether a path leads to a file. -/
def isFile (f : Folder) (p : Path) : Bool :=
  match f.stat p with
  | .ok entry => !entry.isFolder
  | .error _ => false

/-- The text of the file that a path leads to. -/
def readText (f : Folder) (p : Path) : Except FileError Text := do
  match ← f.stat p with
  | .folder _ => .error .isAFolder
  | .file content =>
    match Text.ofBytes? content with
    | some t => .ok t
    | none => .error .notText

/-- The folder after a file is written at a path. The folder it is in has to exist. -/
def writeFile (f : Folder) (p : Path) (content : List UInt8) : Except FileError Folder := do
  match ← f.goal p with
  | .folder _ => .error .isAFolder
  | .name dir name =>
    match f.at? (dir ++ [name]) with
    | some (.folder _) => .error .isAFolder
    | some (.file _) =>
      if p.route.toFolder then .error .notAFolder
      else .ok (f.put (.file content) (dir ++ [name]))
    | none =>
      if p.route.toFolder then .error .isAFolder
      else .ok (f.put (.file content) (dir ++ [name]))

/-- The folder after an empty folder is made at a path. The folder it is in has to exist. -/
def makeFolder (f : Folder) (p : Path) : Except FileError Folder := do
  match ← f.goal p with
  | .folder _ => .error .alreadyExists
  | .name dir name =>
    match f.at? (dir ++ [name]) with
    | some _ => .error .alreadyExists
    | none => .ok (f.put (.folder .empty) (dir ++ [name]))

/-- Makes a folder at a path unless there is one. -/
def ensureFolder (f : Folder) (p : Path) : Folder × Except FileError Unit :=
  match f.makeFolder p with
  | .ok g => (g, .ok ())
  | .error e => (f, if f.isFolder p then .ok () else .error e)

/-- Makes the folder at a path, and before it the ones it is in, at most `bound` levels up. Folders
that were made before something fails stay. -/
def makeFoldersUpTo (f : Folder) (p : Path) : Nat → Folder × Except FileError Unit
  | 0 => (f, .error .notFound)
  | bound + 1 =>
    if p.isEmpty then (f, .ok ())
    else
      match f.makeFolder p, p.parent? with
      | .error .notFound, none => (f, .error .notFound)
      | .error .notFound, some parent =>
        match f.makeFoldersUpTo parent bound with
        | (g, .ok ()) => g.ensureFolder p
        | (g, .error e) => (g, .error e)
      | _, _ => f.ensureFolder p

/-- The folder after all missing folders on the way to a path, and the one at its end, are made. -/
def makeFolders (f : Folder) (p : Path) : Folder × Except FileError Unit :=
  f.makeFoldersUpTo p (p.length + 1)

end Folder

end GoDraft
