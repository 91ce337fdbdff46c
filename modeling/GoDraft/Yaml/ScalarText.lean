import GoDraft.Yaml.Lexer

/-!
# GoDraft — reading the scalars of a YAML text

Plain and quoted scalars may go on over several lines, which are folded; block scalars keep their
lines or fold them.

* `Lexer.plainScalar`, `Lexer.quotedScalar`, `Lexer.blockScalar` — read a scalar as a token;
* `Lexer.Folding.flush` — what blanks and line breaks inside a scalar come to.
-/

namespace GoDraft.Yaml

namespace Lexer

/-! ## Folded lines -/

/-- The text of a scalar over several lines while it is read. -/
structure Folding where
  out : Text := []
  /-- The blanks since the last character, in its line. -/
  gap : Text := []
  /-- The first line break since the last character. -/
  firstBreak : Text := []
  /-- The further line breaks. -/
  moreBreaks : Text := []
  /-- Whether a line break has come since the last character. -/
  broken : Bool := false
  /-- Whether the last character was no blank. -/
  inWord : Bool := false
  stop : Mark := {}

namespace Folding

/-- Writes what the blanks and breaks since the last character come to. A single break is a space,
several are one fewer. -/
def flush (f : Folding) : Folding :=
  let joint : Text :=
    if f.broken then
      if f.firstBreak.head? = some '\n' then
        if f.moreBreaks.isEmpty then [' '] else f.moreBreaks
      else f.firstBreak ++ f.moreBreaks
    else f.gap
  { f with out := f.out ++ joint, gap := [], firstBreak := [], moreBreaks := [], broken := false }

/-- Takes a space or a tab. -/
def addGap (f : Folding) (c : Char) : Folding :=
  { f with gap := if f.broken then f.gap else f.gap ++ [c], inWord := false }

/-- Takes a line break. -/
def addBreak (f : Folding) (value : Text) : Folding :=
  if f.broken then { f with moreBreaks := f.moreBreaks ++ value, inWord := false }
  else { f with gap := [], firstBreak := value, broken := true, inWord := false }

/-- Takes characters of a word. -/
def addWord (f : Folding) (t : Text) : Folding :=
  { f.flush with out := f.flush.out ++ t, inWord := true }

end Folding

/-- Whether a plain scalar ends before the next character. -/
def endsPlain (s : Lexer) (c : Char) : Bool :=
  (c == ':' && s.isSpacedAt 1) || (s.flowLevel != 0 && [',', '[', ']', '{', '}'].elem c)

/-- Reads a plain scalar. -/
def plainScalar : Lex Unit := do
  let start := (← get).mark
  let indent := (← get).indent + 1
  let f ← loop ({ stop := start } : Folding) fun f => do
    let s ← get
    match s.rest.head? with
    | none => return (f, false)
    | some c =>
      if isGap c then
        if f.broken && (s.mark.column : Int) < indent && c == '\t' then
          fail "found a tab character that violates indentation"
            (some ("while scanning a plain scalar", start))
        skip 1
        return (f.addGap c, true)
      else if isBreak c then
        return (f.addBreak (← takeBreak), true)
      else if !f.inWord && (s.isDocumentSign || c == '#') then return (f, false)
      else if !f.inWord && !f.out.isEmpty && s.flowLevel == 0 && (s.mark.column : Int) < indent then
        return (f, false)
      else if s.flowLevel != 0 && c == ':'
          && (s.rest[1]?).any [',', '?', '[', ']', '{', '}'].elem then
        fail "found unexpected ':'" (some ("while scanning a plain scalar", start))
      else if endsPlain s c then return (f, false)
      else
        skip 1
        return ({ f.addWord [c] with stop := (← get).mark }, true)
  push (.scalar f.out .plain) start f.stop
  if f.broken then allowKey true

/-- What a backslash and a character stand for in double quotes. -/
def escaped? (c : Char) : Option Char :=
  match c with
  | '0' => some '\x00'
  | 'a' => some '\x07'
  | 'b' => some '\x08'
  | 't' => some '\t'
  | '\t' => some '\t'
  | 'n' => some '\n'
  | 'v' => some '\x0b'
  | 'f' => some '\x0c'
  | 'r' => some '\r'
  | 'e' => some '\x1b'
  | ' ' => some ' '
  | '"' => some '"'
  | '/' => some '/'
  | '\\' => some '\\'
  | 'N' => some (Char.ofNat 0x85)
  | '_' => some (Char.ofNat 0xa0)
  | 'L' => some (Char.ofNat 0x2028)
  | 'P' => some (Char.ofNat 0x2029)
  | _ => none

/-- The number of hexadecimal digits behind a backslash and a character. -/
def escapeLength? (c : Char) : Option Nat :=
  match c with
  | 'x' => some 2
  | 'u' => some 4
  | 'U' => some 8
  | _ => none

/-- The value of a hexadecimal digit. -/
def hexValue? (c : Char) : Option Nat :=
  if c.isDigit then some (c.toNat - '0'.toNat)
  else if 'a' ≤ c ∧ c ≤ 'f' then some (c.toNat - 'a'.toNat + 10)
  else if 'A' ≤ c ∧ c ≤ 'F' then some (c.toNat - 'A'.toNat + 10)
  else none

/-- The number that hexadecimal digits spell. -/
def hexNumber? (digits : Text) : Option Nat :=
  (digits.mapM hexValue?).map fun values => values.foldl (fun n d => 16 * n + d) 0

/-- Takes an escape in double quotes that is no line break. -/
def takeEscape (start : Mark) : Lex Char := do
  let context := some ("while parsing a quoted scalar".toList, start)
  let s ← get
  let c := (s.rest[1]?).getD '\x00'
  match escaped? c, escapeLength? c with
  | some value, _ =>
    skip 2
    return value
  | none, some n =>
    skip 2
    let digits := (← get).rest.take n
    match if digits.length < n then none else hexNumber? digits with
    | none => fail "did not find expected hexdecimal number" context
    | some value =>
      if (0xd800 ≤ value && value ≤ 0xdfff) || 0x10ffff < value then
        fail "found invalid Unicode character escape code" context
      skip n
      return Char.ofNat value
  | none, none => fail "found unknown escape character" context

/-- Reads a scalar in quotes. -/
def quotedScalar (single : Bool) : Lex Unit := do
  let start := (← get).mark
  let context := some ("while scanning a quoted scalar".toList, start)
  let quote := if single then '\'' else '"'
  skip 1
  let f ← loop ({} : Folding) fun f => do
    let s ← get
    match s.rest.head? with
    | none => fail "found unexpected end of stream" context
    | some c =>
      if !f.inWord && s.isDocumentSign then
        fail "found unexpected document indicator" context
      else if isGap c then
        skip 1
        return (f.addGap c, true)
      else if isBreak c then
        return (f.addBreak (← takeBreak), true)
      else if single && c == quote && s.rest[1]? == some quote then
        skip 2
        return (f.addWord [quote], true)
      else if c == quote then
        skip 1
        return (f.flush, false)
      else if !single && c == '\\' && (s.rest[1]?).any isBreak then
        skip 1
        discard takeBreak
        return ({ f.flush with broken := true, inWord := false }, true)
      else if !single && c == '\\' then
        return (f.addWord [← takeEscape start], true)
      else
        skip 1
        return (f.addWord [c], true)
  push (.scalar f.out (if single then .singleQuoted else .doubleQuoted)) start (← get).mark

/-- What becomes of the line breaks at the end of a block scalar. -/
inductive Chomping where
  | strip
  | clip
  | keep
  deriving DecidableEq

/-- Takes the sign of a chomping, if there is one. -/
def takeChomping? : Lex (Option Chomping) := do
  if ← atChar '+' then
    skip 1
    return some .keep
  else if ← atChar '-' then
    skip 1
    return some .strip
  else return none

/-- Takes a digit for the indentation of a block scalar, if there is one. -/
def takeIncrement? (start : Mark) : Lex (Option Nat) := do
  match ← front with
  | some c =>
    if c == '0' then
      fail "found an indentation indicator equal to 0"
        (some ("while scanning a block scalar", start))
    else if c.isDigit then
      skip 1
      return some (c.toNat - '0'.toNat)
    else return none
  | none => return none

/-- Takes empty lines and indentation. An indentation of zero is not known yet and becomes that of
the deepest line seen. -/
def takeBlockBreaks (indent : Nat) (start : Mark) : Lex (Nat × Text × Mark) := do
  let first := (0, ([] : Text), (← get).mark)
  let (deepest, breaks, stop) ← loop first fun (deepest, breaks, stop) => do
    let s ← get
    let column := s.mark.column
    let within := indent == 0 || column < indent
    match s.rest.head? with
    | none => return ((max deepest column, breaks, stop), false)
    | some c =>
      if within && c == ' ' then
        skip 1
        return ((deepest, breaks, stop), true)
      else if within && c == '\t' then
        fail "found a tab character where an indentation space is expected"
          (some ("while scanning a block scalar", start))
      else if isBreak c then
        let value ← takeBreak
        return ((max deepest column, breaks ++ value, (← get).mark), true)
      else return ((max deepest column, breaks, stop), false)
  let least := ((← get).indent + 1).toNat
  let indent := if indent == 0 then max (max deepest least) 1 else indent
  return (indent, breaks, stop)

/-- A block scalar while its lines are read. -/
structure BlockLines where
  out : Text := []
  firstBreak : Text := []
  moreBreaks : Text := []
  /-- Whether the line before began with a blank. -/
  afterBlank : Bool := false
  stop : Mark

/-- Reads a block scalar, in which line breaks stay as they are or are folded. -/
def blockScalar (folded : Bool) : Lex Unit := do
  let start := (← get).mark
  let context := some ("while scanning a block scalar".toList, start)
  skip 1
  let chomping? ← takeChomping?
  let increment? ← takeIncrement? start
  let chomping? ← match chomping?, increment? with
    | none, some _ => takeChomping?
    | c, _ => pure c
  discard <| takeWhile isGap
  if ← atChar '#' then discard <| takeWhile fun c => !isBreak c
  if !(← get).isLineEnd then fail "did not find expected comment or line break" context
  if (← front).isSome then discard takeBreak
  let outer := (← get).indent
  let given := match increment? with
    | some n => if 0 ≤ outer then outer.toNat + n else n
    | none => 0
  let (indent, breaks, stop) ← takeBlockBreaks given start
  let lines ← loop ({ moreBreaks := breaks, stop } : BlockLines) fun b => do
    let s ← get
    match s.rest.head? with
    | none => return (b, false)
    | some c =>
      if s.mark.column != indent then return (b, false)
      let blank := isGap c
      let joint : Text :=
        if folded && b.firstBreak.head? == some '\n' && !b.afterBlank && !blank then
          if b.moreBreaks.isEmpty then [' '] else []
        else b.firstBreak
      let line ← takeWhile fun c => !isBreak c
      let firstBreak ← if (← front).isSome then takeBreak else pure []
      let (_, moreBreaks, stop) ← takeBlockBreaks indent start
      return ({ out := b.out ++ joint ++ b.moreBreaks ++ line, firstBreak, moreBreaks,
                afterBlank := blank, stop }, true)
  let tail : Text := match chomping?.getD .clip with
    | .strip => []
    | .clip => lines.firstBreak
    | .keep => lines.firstBreak ++ lines.moreBreaks
  push (.scalar (lines.out ++ tail) (if folded then .folded else .literal)) start lines.stop

end Lexer

end GoDraft.Yaml
