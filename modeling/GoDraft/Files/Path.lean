import GoDraft.Text.Basic

/-!
# GoDraft — paths

A path is kept as it was written. Its components are what it means: repeated slashes, slashes at the
end and dots inside name nothing.

* `Path.components` — what a path means, and the order of paths;
* `Path.join`, `Path.parent?`, `Path.relativeTo?` — moving between folders;
* `Path.fileName?`, `Path.extension?`, `Path.withExtension` — the name at the end.
-/

namespace GoDraft

/-- A path, as it was written. -/
abbrev Path := Text

/-- One step of a path. -/
inductive Component where
  | root
  | here
  | up
  | name (t : Text)
  deriving DecidableEq, Repr

/-- The place of a kind of step in the order of paths. -/
def Component.rank : Component → Nat
  | .root => 0
  | .here => 1
  | .up => 2
  | .name _ => 3

/-- A path cut at its slashes, behind the slash or dot that it begins with. -/
structure PathParts where
  head : Text
  pieces : List Text

namespace PathParts

/-- Whether a piece between slashes names nothing. -/
def isIdle (piece : Text) : Bool := piece.isEmpty || piece == ['.']

/-- The parts without the idle pieces at the end. -/
def trimEnd (p : PathParts) : PathParts :=
  { p with pieces := (p.pieces.reverse.dropWhile isIdle).reverse }

/-- The parts without their last piece. -/
def dropLast (p : PathParts) : PathParts := { p with pieces := p.pieces.dropLast }

/-- The parts as a path. -/
def toPath (p : PathParts) : Path := p.head ++ Text.join ['/'] p.pieces

end PathParts

namespace Path

/-- A path cut at its slashes. -/
def parts (p : Path) : PathParts :=
  match p with
  | '/' :: rest => ⟨['/'], Text.pieces '/' rest⟩
  | ['.'] => ⟨['.'], []⟩
  | '.' :: '/' :: rest => ⟨['.'], [] :: Text.pieces '/' rest⟩
  | _ => ⟨[], Text.pieces '/' p⟩

/-- Whether a path begins at the root of the file system. -/
def isAbsolute (p : Path) : Bool := p.head? == some '/'

/-- The step that a piece between slashes stands for. -/
def componentOf (piece : Text) : Component :=
  if piece = ['.', '.'] then .up else .name piece

/-- The step that the head of a path stands for. -/
def headComponent (head : Text) : List Component :=
  if head = ['/'] then [.root] else if head = ['.'] then [.here] else []

/-- The steps of a path. -/
def components (p : Path) : List Component :=
  headComponent p.parts.head
    ++ (p.parts.pieces.filter fun piece => !PathParts.isIdle piece).map componentOf

/-! ## Names -/

/-- The name at the end of a path, where it ends with one. -/
def fileName? (p : Path) : Option Text :=
  match p.parts.trimEnd.pieces.getLast? with
  | some piece => if piece = ['.', '.'] then none else some piece
  | none => none

/-- A name cut at its last dot, unless that is its first character or there is none. -/
def cutName? (name : Text) : Option (Text × Text) :=
  let ext := (name.reverse.takeWhile (· != '.')).reverse
  if ext.length + 1 < name.length then some (name.take (name.length - ext.length - 1), ext)
  else none

/-- The extension of the name at the end of a path. -/
def extension? (p : Path) : Option Text := (p.fileName?.bind cutName?).map Prod.snd

/-- A name with a given extension instead of its own. -/
def nameWithExtension (name ext : Text) : Text :=
  ((cutName? name).map Prod.fst).getD name ++ "." ++ ext

/-- A path whose name has a given extension; a path without a name stays as it is. -/
def withExtension (p : Path) (ext : Text) : Path :=
  match p.fileName? with
  | none => p
  | some name =>
    let front := p.parts.trimEnd.dropLast
    { front with pieces := front.pieces ++ [nameWithExtension name ext] }.toPath

/-! ## Folders -/

/-- A path inside a folder. An absolute path stays as it is. -/
def join (dir p : Path) : Path :=
  if p.isAbsolute || dir.isEmpty then p
  else if dir.getLast? = some '/' then dir ++ p
  else dir ++ "/" ++ p

/-- The folder that a path is in. -/
def parent? (p : Path) : Option Path :=
  let trimmed := p.parts.trimEnd
  if !trimmed.pieces.isEmpty then some trimmed.dropLast.trimEnd.toPath
  else if trimmed.head = ['.'] then some []
  else none

/-- The pieces behind the first `n` that name something. -/
def dropNamed : Nat → List Text → List Text
  | 0, pieces => pieces
  | _ + 1, [] => []
  | n + 1, piece :: rest =>
    if PathParts.isIdle piece then dropNamed (n + 1) rest else dropNamed n rest

/-- The path from a folder to a path inside it. -/
def relativeTo? (p base : Path) : Option Path :=
  let steps := base.components
  if steps.isPrefixOf p.components then
    if steps.isEmpty then some p.parts.trimEnd.toPath
    else
      let named := steps.length - (headComponent p.parts.head).length
      let pieces := dropNamed named p.parts.trimEnd.pieces
      some (Text.join ['/'] (pieces.dropWhile PathParts.isIdle))
  else none

/-! ## Order -/

/-- Whether a text comes before another or is the same, character by character. -/
def textLe : Text → Text → Bool
  | [], _ => true
  | _ :: _, [] => false
  | a :: s, b :: t => a.toNat < b.toNat || (a == b && textLe s t)

/-- Whether a step comes before another. -/
def stepLt : Component → Component → Bool
  | .name s, .name t => s != t && textLe s t
  | a, b => a.rank < b.rank

/-- Whether some steps come before others or are the same. -/
def stepsLe : List Component → List Component → Bool
  | [], _ => true
  | _ :: _, [] => false
  | a :: s, b :: t => stepLt a b || (a == b && stepsLe s t)

/-- Whether a path comes before another or means the same. -/
def le (p q : Path) : Bool := stepsLe p.components q.components

end Path

end GoDraft
