import GoDraft.Fault
import GoDraft.Java.Declaration
import GoDraft.Pattern.Search
import GoDraft.Scan.Walker

/-!
# GoDraft — the fields of the class

Text of the shape of a field is a field when it begins in code directly inside the class. Static
fields are passed over.

* `fieldFindings` — everything of that shape, and what it was taken for;
* `findFields` — the fields.
-/

namespace GoDraft

open Pattern

/-- A type and a name, with an optional access before and an optional value behind. -/
def fieldPattern : Pattern :=
  wordEdge
    ++ optional (group 1 ("private" ||| "public" ||| "protected") ++ blanks1)
    ++ optional ("final" ++ blanks1)
    ++ group 2 word ++ blanks1 ++ group 3 word
    ++ optional (blanks ++ "=" ++ blanks ++ group 4 (few (stringLiteral ||| noneOf ";\"")))
    ++ ";"

/-- How many bytes before a field the word `static` is looked for. -/
def staticLookback : Nat := 10

/-- The last offset up to a given one that lies between two characters. -/
def boundaryUpTo (t : Text) : Nat → Nat
  | 0 => 0
  | n + 1 => if t.isBoundary (n + 1) then n + 1 else boundaryUpTo t n

/-- Whether the word `static` stands shortly before an offset. -/
def followsStatic (t : Text) (start : Nat) : Except Fault Bool := do
  let before ← t.slice (boundaryUpTo t (start - staticLookback)) start
  return before.hasPart "static"

/-- What text of the shape of a field was taken for. -/
inductive FieldFinding where
  /-- A static field that begins at an offset. -/
  | static (start : Nat)
  /-- No field of the class. -/
  | elsewhere
  /-- A field of the class. -/
  | field (f : Field)
  deriving DecidableEq, Repr

/-- What a match of the field pattern is taken for. -/
def fieldFinding (source : Text) (m : Match) : Except Fault FieldFinding := do
  if ← followsStatic source m.start then return .static m.start
  if !isMemberAt source m.start then return .elsewhere
  return .field
    { access := .ofWord (m.group? 1)
      typeName := m.group 2
      name := m.group 3
      default? := (m.group? 4).map Text.trim }

/-- What the matches of the field pattern are taken for, in the order of the text. -/
def fieldFindings (source : Text) : Except Fault (List FieldFinding) :=
  (fieldPattern.findAll source).mapM (fieldFinding source)

/-- The field of a finding. -/
def FieldFinding.field? : FieldFinding → Option Field
  | .field f => some f
  | _ => none

/-- The record of a finding. -/
def FieldFinding.log : FieldFinding → Log
  | .static start => [⟨.trace, "skipping static field at offset " ++ decimalText start⟩]
  | _ => []

/-- The fields of the class, in the order of the text. -/
def findFields (source : Text) : Except Fault (List Field) := do
  return (← fieldFindings source).filterMap FieldFinding.field?

end GoDraft
