import GoDraft.Scan.Zone

/-!
# GoDraft — the scanner

The scanner reads letters from left to right, tells the zone of each and counts the braces that are
code. It never fails: a closing brace at depth zero leaves the depth at zero, an unclosed comment
runs to the end, and an unclosed literal ends before the next line feed.

* `Scanner.step` — one letter, with a look at the next one;
* `Scanner.run` — the zone and depth of every letter;
* `stripComments` — the letters outside comments.
-/

namespace GoDraft

/-- The state between two letters. -/
structure Scanner where
  /-- The zone the text is in. -/
  zone : Zone := .code
  /-- The number of open code braces. -/
  depth : Nat := 0
  /-- The zone of the next letter where it is already settled: the second letter of a comment
  delimiter, or a letter after a backslash. -/
  carry : Option Zone := none
  deriving DecidableEq, Repr

namespace Scanner

/-- The state at the start of a text. -/
def start : Scanner := {}

/-- The zone of a letter and the state after it. -/
def step (s : Scanner) (m : Mark) (next : Option Mark) : Zone × Scanner :=
  match s.carry with
  | some z => (z, { s with carry := none })
  | none =>
    match s.zone with
    | .code =>
      match m, next with
      | .quote q, _ => (.literal q, { s with zone := .literal q })
      | .slash, some .slash => (.lineComment, { s with zone := .lineComment })
      | .slash, some .star =>
        (.blockComment, { s with zone := .blockComment, carry := some .blockComment })
      | .openBrace, _ => (.code, { s with depth := s.depth + 1 })
      | .closeBrace, _ => (.code, { s with depth := s.depth - 1 })
      | _, _ => (.code, s)
    | .literal q =>
      match m with
      | .backslash => (.literal q, { s with carry := some (.literal q) })
      | .quote q' => (.literal q, if q' = q then { s with zone := .code } else s)
      | .newline => (.code, { s with zone := .code })
      | _ => (.literal q, s)
    | .lineComment =>
      match m with
      | .newline => (.code, { s with zone := .code })
      | _ => (.lineComment, s)
    | .blockComment =>
      match m, next with
      | .star, some .slash =>
        (.blockComment, { s with zone := .code, carry := some .blockComment })
      | _, _ => (.blockComment, s)

end Scanner

/-- A letter with its zone and the number of code braces open before it. -/
structure Seen (α : Type) where
  letter : α
  zone : Zone
  depth : Nat
  deriving DecidableEq, Repr

namespace Scanner

variable {α : Type} [Marked α]

/-- Reads the letter `a`, which `rest` follows. -/
def read (s : Scanner) (a : α) (rest : List α) : Zone × Scanner :=
  s.step (Marked.mark a) (rest.head?.map Marked.mark)

/-- Every letter with its zone and depth. -/
def run (s : Scanner) : List α → List (Seen α)
  | [] => []
  | a :: rest =>
    let r := s.read a rest
    ⟨a, r.1, s.depth⟩ :: r.2.run rest

/-- The state after all letters. -/
def after (s : Scanner) : List α → Scanner
  | [] => s
  | a :: rest => (s.read a rest).2.after rest

end Scanner

variable {α : Type} [Marked α]

/-- Every letter of a text with its zone and depth, read from the start. -/
def scan (letters : List α) : List (Seen α) := Scanner.start.run letters

/-- The letters outside comments. The line feed that ends a line comment is code and stays. -/
def stripComments (letters : List α) : List α :=
  ((scan letters).filter fun s => !s.zone.isComment).map Seen.letter

end GoDraft
