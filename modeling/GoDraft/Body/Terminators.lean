import GoDraft.Body.Keyword
import GoDraft.Text.Blank

/-!
# GoDraft — statement terminators

Go statements end with their line, so the semicolons that end statements are dropped. Statements that
still share a line are put on lines of their own. The semicolons between the clauses of a `for` stay
up to its brace, and literals and line comments stay as they are. Each line is read on its own.

* `Terminators.walk` — the rest of a line;
* `stripTerminators` — a whole text.
-/

namespace GoDraft

/-- A line while its terminators are dropped. -/
structure Terminators where
  /-- What has been written, last character first. -/
  out : Text := []
  /-- The delimiter of the literal being read. -/
  quote : Option Char := none
  /-- Whether the character before was an escaping backslash. -/
  escaped : Bool := false
  /-- Whether the header of a `for` is being read. -/
  forHeader : Bool := false
  /-- Whether the blanks before a new statement are being skipped. -/
  skipping : Bool := false

namespace Terminators

/-- Writes a character. -/
def push (st : Terminators) (c : Char) : Terminators :=
  { st with out := c :: st.out, skipping := false }

/-- Writes a character of a literal with the delimiter `q`. -/
def inLiteral (st : Terminators) (q c : Char) : Terminators :=
  let st := st.push c
  if st.escaped then { st with escaped := false }
  else if c = '\\' then { st with escaped := true }
  else if c = q then { st with quote := none }
  else st

/-- The line without terminators, from the state before the rest of it; `before` is the character
before that rest. -/
def walk (st : Terminators) (before : Option Char) : Text → Text
  | [] => st.out.reverse
  | c :: rest =>
    match st.quote with
    | some q => (st.inLiteral q c).walk (some c) rest
    | none =>
      if st.skipping && isBlank c then st.walk (some c) rest
      else if c = '"' ∨ c = '\'' then { st.push c with quote := some c }.walk (some c) rest
      else if c = '/' ∧ rest.head? = some '/' then st.out.reverse ++ c :: rest
      else if c = 'f' ∧ startsKeyword before (c :: rest) "for" then
        { st.push c with forHeader := true }.walk (some c) rest
      else if c = '{' then { st.push c with forHeader := false }.walk (some c) rest
      else if c = ';' ∧ !st.forHeader then
        let ahead := Text.trimStart rest
        if ahead.isEmpty then st.out.reverse
        else if ahead.startsWith "//" || ahead.head? == some ';' then st.walk (some c) rest
        else
          { st with out := '\n' :: st.out.dropWhile isBlank, skipping := true }.walk (some c) rest
      else (st.push c).walk (some c) rest

end Terminators

/-- A line without its terminators. -/
def dropTerminators (line : Text) : Text := ({} : Terminators).walk none line

/-- A text without its statement terminators. -/
def stripTerminators (t : Text) : Text := Text.join "\n" ((t.pieces '\n').map dropTerminators)

end GoDraft
