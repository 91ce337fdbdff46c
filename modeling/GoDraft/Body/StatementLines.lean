import GoDraft.Body.Keyword
import GoDraft.Scan.Scanner
import GoDraft.Text.Blank

/-!
# GoDraft — one statement a line

Before statements are recast, each is put on a line of its own. A line ends after the semicolon of a
statement, after the brace that opens a block and around the brace that closes one, unless the block
goes on (`else`, `while`, …). A semicolon inside parentheses ends no statement, and the braces of an
array initializer stay in their line. Literals and comments are copied as they stand.

* `StatementLines.feed` — one character;
* `splitStatements` — a whole body.
-/

namespace GoDraft

/-- An open brace: whether it opens a block, and the parentheses open outside it. -/
structure OpenBrace where
  isBlock : Bool
  parens : Nat
  deriving DecidableEq, Repr

/-- A body while its statements are put on lines. -/
structure StatementLines where
  /-- What has been written, last character first. -/
  out : Text := []
  /-- The open braces, innermost first. -/
  braces : List OpenBrace := []
  /-- The open parentheses of the innermost block. -/
  parens : Nat := 0
  /-- Whether a line is to end before the next character that is no space or tab. -/
  pending : Bool := false

/-- Whether a character is a space or a tab. -/
def isGap (c : Char) : Bool := c == ' ' || c == '\t'

/-- Whether more code follows on the same line. -/
def breaksAfter (rest : Text) : Bool :=
  let ahead : Text := rest.dropWhile isGap
  !(ahead.isEmpty || ahead.head? == some '\n' || ahead.head? == some '\r'
    || ahead.startsWith "//" || ahead.startsWith "/*")

/-- Words that go on with a statement after the end of a block. -/
def blockContinuations : List Text := ["else", "while", "catch", "finally"]

/-- Whether the statement goes on after the end of a block. -/
def continuesBlock (rest : Text) : Bool :=
  let ahead := rest.trimStart
  ahead.head?.any [';', ')', ','].elem || blockContinuations.any (startsKeyword none ahead)

/-- Whether a brace after the text written so far opens a block; otherwise it opens an
initializer. -/
def opensBlock (out : Text) : Bool :=
  !(out.find? (fun c => !isPlainBlank c)).any ['=', ']', ',', '('].elem

/-- Whether the last line written so far has nothing but blanks. -/
def lineIsBlank (out : Text) : Bool := (out.takeWhile (· != '\n')).all isPlainBlank

namespace StatementLines

/-- Writes a character. -/
def push (st : StatementLines) (c : Char) : StatementLines := { st with out := c :: st.out }

/-- Ends the line now if it is still to end before the character `c`. -/
def settle (st : StatementLines) (c : Char) : StatementLines :=
  if !st.pending then st
  else if c == '\n' || c == '\r' then { st with pending := false }
  else { st with pending := false, out := '\n' :: st.out }

/-- Begins a new line for a closing brace, unless it is on one. -/
def freshLine (st : StatementLines) : StatementLines :=
  if lineIsBlank st.out then st else { st with out := '\n' :: st.out.dropWhile isGap }

/-- Takes an opening brace that `rest` follows. -/
def openBrace (st : StatementLines) (rest : Text) : StatementLines :=
  let inBlock := st.braces.head?.all (·.isBlock)
  let isBlock := inBlock && opensBlock st.out
  let st := { st with braces := ⟨isBlock, st.parens⟩ :: st.braces }
  if isBlock then { st with parens := 0, pending := breaksAfter rest } else st

/-- Takes a closing brace that `rest` follows. -/
def closeBrace (st : StatementLines) (rest : Text) : StatementLines :=
  let brace := st.braces.head?.getD ⟨true, 0⟩
  let st := { st with braces := st.braces.tail }
  if brace.isBlock then
    { st.freshLine with
      parens := brace.parens, pending := breaksAfter rest && !continuesBlock rest }
  else st

/-- Takes a character of code that `rest` follows. -/
def code (st : StatementLines) (c : Char) (rest : Text) : StatementLines :=
  match c with
  | '(' => { st with parens := st.parens + 1 }
  | ')' => { st with parens := st.parens - 1 }
  | ';' => if st.parens = 0 then { st with pending := breaksAfter rest } else st
  | '{' => st.openBrace rest
  | '}' => st.closeBrace rest
  | _ => st

/-- Takes one character of the body that `rest` follows. -/
def feed (st : StatementLines) (s : Seen Char) (rest : List (Seen Char)) : StatementLines :=
  if st.pending && isGap s.letter then st
  else
    let st := st.settle s.letter
    if s.zone.isCode then (st.code s.letter (rest.map Seen.letter)).push s.letter
    else st.push s.letter

/-- Takes the characters of a body. -/
def run (st : StatementLines) : List (Seen Char) → StatementLines
  | [] => st
  | s :: rest => (st.feed s rest).run rest

end StatementLines

/-- A body with each statement on a line of its own. -/
def splitStatements (body : Text) : Text :=
  (({} : StatementLines).run (scan body)).out.reverse

end GoDraft
