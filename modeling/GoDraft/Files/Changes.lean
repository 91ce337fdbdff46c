import GoDraft.Files.Folder

/-!
# GoDraft — what changed in a folder

* `Folder.changes` — what is gone from a folder and what is new in it, compared with an earlier one.
-/

namespace GoDraft

/-- A difference between two folders at a location. -/
inductive Change where
  /-- What stood there is gone, or is of another kind now. -/
  | gone (loc : Location) (old : Entry)
  /-- Something new stands there, or the file has another content. -/
  | new (loc : Location) (entry : Entry)
  deriving DecidableEq, Repr

namespace Folder

/-- Whether a file or a folder, as the case may be, stands at a location. -/
def hasKind (f : Folder) (loc : Location) (isFolder : Bool) : Bool :=
  (f.at? loc).any fun entry => entry.isFolder == isFolder

/-- Whether an entry at a location is no different from what stands there. Folders are compared by
what they hold. -/
def holds (f : Folder) (loc : Location) : Entry → Bool
  | .file content => f.at? loc == some (.file content)
  | .folder _ => f.hasKind loc true

/-- What changed from one folder to another: first what is gone, then what is new. -/
def changes (before after : Folder) : List Change :=
  let gone := (before.entries []).filter fun (loc, entry) => !after.hasKind loc entry.isFolder
  let new := (after.entries []).filter fun (loc, entry) => !before.holds loc entry
  gone.map (fun (loc, entry) => .gone loc entry) ++ new.map (fun (loc, entry) => .new loc entry)

end Folder

end GoDraft
