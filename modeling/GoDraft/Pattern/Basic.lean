import GoDraft.Text.Blank
import GoDraft.Text.WordChar

/-!
# GoDraft — patterns

A pattern describes pieces of text. At a place in a text it may fit in several ways; they are listed
in order of preference. Of two alternatives the left one is preferred, a greedy repetition prefers
more rounds, a lazy one prefers fewer, and in a sequence the earlier part decides first. The match
of a pattern at a place is its first way.

* `Cursor` — a place in a text;
* `Pattern.ways` — the ways to fit, best first;
* `Pattern.matchAt?` — the match at a place.
-/

namespace GoDraft

/-! ## Places -/

/-- A place in a text: the character before it, its byte offset and the text behind it. -/
structure Cursor where
  before : Option Char
  offset : Nat
  rest : Text

namespace Cursor

/-- The start of a text. -/
def start (t : Text) : Cursor := ⟨none, 0, t⟩

/-- The place behind the character `c`, which `rest` follows. -/
def past (k : Cursor) (c : Char) (rest : Text) : Cursor := ⟨some c, k.offset + c.utf8Size, rest⟩

/-- Whether exactly one side of the place is part of a word. -/
def isWordEdge (k : Cursor) : Bool := k.before.any isWordChar != k.rest.head?.any isWordChar

/-- Whether a line begins at the place. -/
def isLineStart (k : Cursor) : Bool := k.before.all (· == '\n')

end Cursor

/-- A part of a text, by the places at its ends. -/
structure Span where
  start : Cursor
  stop : Cursor

/-- The number of characters of a span. -/
def Span.length (s : Span) : Nat := s.start.rest.length - s.stop.rest.length

/-- The text of a span. -/
def Span.text (s : Span) : Text := s.start.rest.take s.length

/-! ## Patterns and their ways -/

/-- The shapes of text that a pattern describes. -/
inductive Pattern where
  /-- Nothing. -/
  | empty
  /-- One character of a class. -/
  | one (accepts : Char → Bool)
  /-- A place at the start or the end of a word. -/
  | wordEdge
  /-- A place at the start of a line. -/
  | lineStart
  /-- One pattern and then another. -/
  | seq (p q : Pattern)
  /-- One pattern or, failing that, another. -/
  | alt (p q : Pattern)
  /-- Any number of rounds, more before fewer. -/
  | many (p : Pattern)
  /-- Any number of rounds, fewer before more. -/
  | few (p : Pattern)
  /-- A pattern whose text is kept under a number. -/
  | group (index : Nat) (p : Pattern)

/-- How far a pattern has come: where it stands and what its groups hold, newest first. -/
structure Way where
  cursor : Cursor
  groups : List (Nat × Span)

namespace Way

/-- Whether a way has gone beyond another. -/
def passes (w : Way) (earlier : Way) : Bool := earlier.cursor.offset < w.cursor.offset

/-- Rounds of `step`, more before fewer. Each round consumes text, so the text bounds their
number. -/
def most (step : Way → List Way) : Text → Way → List Way
  | [], w => [w]
  | _ :: bound, w => ((step w).filter (·.passes w)).flatMap (most step bound) ++ [w]

/-- Rounds of `step`, fewer before more. -/
def fewest (step : Way → List Way) : Text → Way → List Way
  | [], w => [w]
  | _ :: bound, w => w :: ((step w).filter (·.passes w)).flatMap (fewest step bound)

end Way

namespace Pattern

/-- The ways to go on from a way by a pattern, best first. -/
def ways : Pattern → Way → List Way
  | .empty, w => [w]
  | .one accepts, w =>
    match w.cursor.rest with
    | [] => []
    | c :: rest => if accepts c then [⟨w.cursor.past c rest, w.groups⟩] else []
  | .wordEdge, w => if w.cursor.isWordEdge then [w] else []
  | .lineStart, w => if w.cursor.isLineStart then [w] else []
  | .seq p q, w => (p.ways w).flatMap q.ways
  | .alt p q, w => p.ways w ++ q.ways w
  | .many p, w => w.most p.ways w.cursor.rest
  | .few p, w => w.fewest p.ways w.cursor.rest
  | .group index p, w =>
    (p.ways w).map fun v => ⟨v.cursor, (index, ⟨w.cursor, v.cursor⟩) :: v.groups⟩

end Pattern

/-! ## Matches -/

/-- A match: its span and the spans of its groups. -/
structure Match where
  span : Span
  groups : List (Nat × Span)

namespace Match

/-- The span of a group, where the match has one; group zero is the whole match. -/
def span? (m : Match) : Nat → Option Span
  | 0 => some m.span
  | index => m.groups.lookup index

/-- The text of a group, where the match has one. -/
def group? (m : Match) (index : Nat) : Option Text := (m.span? index).map Span.text

/-- The text of a group, empty where the match has none. -/
def group (m : Match) (index : Nat) : Text := (m.group? index).getD []

/-- The byte offset at which the match begins. -/
def start (m : Match) : Nat := m.span.start.offset

/-- The byte offset at which the match ends. -/
def stop (m : Match) : Nat := m.span.stop.offset

end Match

namespace Pattern

/-- The match of a pattern at a place. -/
def matchAt? (p : Pattern) (k : Cursor) : Option Match :=
  (p.ways ⟨k, []⟩).head?.map fun w => ⟨⟨k, w.cursor⟩, w.groups⟩

/-! ## Building patterns -/

instance : Append Pattern := ⟨.seq⟩

instance : OrOp Pattern := ⟨.alt⟩

/-- One given character. -/
def char (c : Char) : Pattern := .one (· == c)

/-- One of some characters. -/
def oneOf (chars : Text) : Pattern := .one fun c => chars.elem c

/-- A character that is none of some. -/
def noneOf (chars : Text) : Pattern := .one fun c => !chars.elem c

/-- A given text. -/
def text (t : Text) : Pattern := t.foldr (fun c p => .seq (char c) p) .empty

instance : Coe String Pattern := ⟨fun s => text s.toList⟩

/-- One round or more, more before fewer. -/
def many1 (p : Pattern) : Pattern := p ++ p.many

/-- The pattern once if it fits. -/
def optional (p : Pattern) : Pattern := .alt p .empty

/-- A character of a word. -/
def wordChar : Pattern := .one isWordChar

/-- A word, as long as it goes. -/
def word : Pattern := wordChar.many1

/-- Any blanks. -/
def blanks : Pattern := .many (.one isBlank)

/-- At least one blank. -/
def blanks1 : Pattern := .many1 (.one isBlank)

/-- Any spaces and tabs. -/
def gap : Pattern := .many (oneOf " \t")

/-- At least one space or tab. -/
def gap1 : Pattern := .many1 (oneOf " \t")

/-- As little of a line as possible. -/
def someOfLine : Pattern := .few (noneOf "\n")

/-- Names joined by dots. -/
def dotted : Pattern := .many1 (.one fun c => isWordChar c || c == '.')

/-- A string literal with its escapes. -/
def stringLiteral : Pattern :=
  "\"" ++ many (noneOf "\"\\" ||| ("\\" ++ noneOf "\n")) ++ "\""

end Pattern

end GoDraft
