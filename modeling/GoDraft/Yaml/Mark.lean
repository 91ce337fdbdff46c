import GoDraft.Log

/-!
# GoDraft — places in a YAML text, and errors there

Lines and columns count characters from zero and are shown from one.
-/

namespace GoDraft.Yaml

/-- A place in a text. -/
structure Mark where
  index : Nat := 0
  line : Nat := 0
  column : Nat := 0
  deriving DecidableEq, Repr

namespace Mark

/-- Whether a place is the first of the first line. -/
def isStart (m : Mark) : Bool := m.line == 0 && m.column == 0

/-- A place as it is shown. -/
def text (m : Mark) : Text :=
  "line " ++ decimalText (m.line + 1) ++ " column " ++ decimalText (m.column + 1)

/-- A place as the end of a message; the start of a text is not told. -/
def note (m : Mark) : Text := if m.isStart then [] else " at " ++ m.text

/-- The place one character further on in the line. -/
def next (m : Mark) : Mark := { m with index := m.index + 1, column := m.column + 1 }

/-- The start of the next line, behind a break of `size` characters. -/
def nextLine (m : Mark) (size : Nat) : Mark :=
  { index := m.index + size, line := m.line + 1, column := 0 }

end Mark

/-- Why a text is no YAML: what is wrong where, and what was being read. -/
structure SyntaxError where
  problem : Text
  mark : Mark
  /-- The number of bytes before it, where no line is known. -/
  offset : Nat := 0
  context? : Option (Text × Mark) := none
  deriving DecidableEq, Repr

/-- The place of an error, as it is shown. -/
def SyntaxError.place (e : SyntaxError) : Text :=
  if e.mark.isStart && e.offset != 0 then " at position " ++ decimalText e.offset else e.mark.note

/-- The text of an error. The place of the context is told where it is another one. -/
def SyntaxError.message (e : SyntaxError) : Text :=
  e.problem ++ e.place ++
    match e.context? with
    | none => []
    | some (context, mark) =>
      let sameLine := mark.line == e.mark.line && mark.column == e.mark.column
      ", " ++ context ++ (if sameLine then [] else mark.note)

end GoDraft.Yaml
