import GoDraft.Yaml.Token

/-!
# GoDraft — a YAML text while its tokens are read

A scalar or a collection may turn out to be a key only when a colon follows it in the same line. So
the place where a key could begin is remembered, and tokens are put in there later. Indentation opens
and closes blocks outside flow collections.

* `Lexer.takeWhile`, `Lexer.takeBreak` — moving on in the text;
* `Lexer.rollIndent`, `Lexer.unrollIndent` — the blocks that indentation opens and closes;
* `Lexer.saveKey`, `Lexer.dropKey`, `Lexer.dropStaleKeys` — the places where keys may begin;
* `Lexer.skipToToken` — blanks and comments.
-/

namespace GoDraft.Yaml

/-- A place where a key may begin. -/
structure KeyPlace where
  /-- Whether it still can be a key. -/
  possible : Bool := false
  /-- Whether it has to be one. -/
  required : Bool := false
  /-- The number of the token it would begin with. -/
  number : Nat := 0
  mark : Mark := {}

/-- A text while its tokens are read. -/
structure Lexer where
  rest : Text
  mark : Mark := {}
  started : Bool := false
  ended : Bool := false
  /-- The tokens that are read and not yet taken. -/
  queue : List Token := []
  /-- How many tokens have been taken. -/
  taken : Nat := 0
  /-- The column of the innermost block, or minus one. -/
  indent : Int := -1
  /-- The columns of the blocks around it. -/
  indents : List Int := []
  /-- The places where keys may begin, one for each level of flow collections, innermost first. -/
  keys : List KeyPlace := []
  /-- Whether a key may begin here. -/
  keyAllowed : Bool := false
  /-- The number of open flow collections. -/
  flowLevel : Nat := 0

/-- Reading may fail with a syntax error. -/
abbrev Lex := StateT Lexer (Except SyntaxError)

/-! ## Characters -/

/-- Whether a character ends a line. -/
def isBreak (c : Char) : Bool :=
  c == '\r' || c == '\n' || c.toNat == 0x85 || c.toNat == 0x2028 || c.toNat == 0x2029

/-- Whether a character is a space or a tab. -/
def isGap (c : Char) : Bool := c == ' ' || c == '\t'

/-- The character that a text may be marked with at its start. -/
def byteOrderMark : Char := Char.ofNat 0xfeff

/-- Whether a character can be part of a name. -/
def isNameChar (c : Char) : Bool := c.isAlphanum || c == '_' || c == '-'

namespace Lexer

/-- Whether at an offset there is a space, a tab, a line break or the end. -/
def isSpacedAt (s : Lexer) (n : Nat) : Bool :=
  (s.rest[n]?).all fun c => isGap c || isBreak c

/-- Whether the text is at a line break or at its end. -/
def isLineEnd (s : Lexer) : Bool := s.rest.head?.all isBreak

/-- Whether a document begins or ends here. -/
def isDocumentSign (s : Lexer) : Bool :=
  s.mark.column == 0 && (s.rest.startsWith "---" || s.rest.startsWith "...") && s.isSpacedAt 3

/-- Fails, with a problem at the place reached. -/
def fail {α : Type} (problem : Text) (context? : Option (Text × Mark)) : Lex α := do
  throw { problem, mark := (← get).mark, context? }

/-- Goes on by `n` characters that are no line breaks. -/
def skip : Nat → Lex Unit
  | 0 => pure ()
  | n + 1 => do
    modify fun s => { s with rest := s.rest.tail, mark := s.mark.next }
    skip n

/-- The next character. -/
def front : Lex (Option Char) := return (← get).rest.head?

/-- Whether the next character is a given one. -/
def atChar (c : Char) : Lex Bool := return (← front) == some c

/-- Takes a line break and gives it as it counts in a value. -/
def takeBreak : Lex Text := do
  let s ← get
  let (size, value) : Nat × Text := match s.rest with
    | '\r' :: '\n' :: _ => (2, ['\n'])
    | c :: _ => (1, if c.toNat == 0x2028 || c.toNat == 0x2029 then [c] else ['\n'])
    | [] => (0, [])
  set { s with rest := s.rest.drop size, mark := s.mark.nextLine size }
  return value

/-- Repeats a step as long as it has a next state, at most `bound` times. -/
def iterate {σ : Type} (step : σ → Lex (Option σ)) : Nat → σ → Lex σ
  | 0, state => pure state
  | bound + 1, state => do
    match ← step state with
    | some state => iterate step bound state
    | none => pure state

/-- Repeats a step on the text; every round but the last takes a character. -/
def loop {σ : Type} (state : σ) (step : σ → Lex (σ × Bool)) : Lex σ := do
  let bound := (← get).rest.length + 2
  let (state, _) ← iterate (fun (p : σ × Bool) => do
    if p.2 then return some (← step p.1) else return none) bound (state, true)
  return state

/-- Takes the characters of a class at the front. -/
def takeWhile (accepts : Char → Bool) : Lex Text := do
  let s ← get
  let taken := s.rest.takeWhile accepts
  skip taken.length
  return taken

/-! ## Tokens in the queue -/

/-- Adds a token at the end. -/
def push (sign : Sign) (start stop : Mark) : Lex Unit :=
  modify fun s => { s with queue := s.queue ++ [⟨sign, start, stop⟩] }

/-- Adds a token of `n` characters. -/
def pushSign (sign : Sign) (n : Nat) : Lex Unit := do
  let start := (← get).mark
  skip n
  push sign start (← get).mark

/-- Puts a token in front of the one with a number. -/
def insert (number : Nat) (sign : Sign) (mark : Mark) : Lex Unit :=
  modify fun s =>
    let at' := number - s.taken
    { s with queue := s.queue.take at' ++ [⟨sign, mark, mark⟩] ++ s.queue.drop at' }

/-! ## Blocks -/

/-- Opens a block at a column, if it is further in than the innermost one. -/
def rollIndent (column : Nat) (number? : Option Nat) (sign : Sign) (mark : Mark) : Lex Unit := do
  let s ← get
  if s.flowLevel == 0 && s.indent < column then
    set { s with indents := s.indent :: s.indents, indent := (column : Int) }
    match number? with
    | some number => insert number sign mark
    | none => push sign mark mark

/-- Closes the blocks that are further in than a column. -/
def unrollIndent (column : Int) : Lex Unit := do
  let s ← get
  if s.flowLevel == 0 then
    let close (p : List Token × Int × List Int) :=
      (p.1 ++ [⟨.blockEnd, s.mark, s.mark⟩], p.2.2.headD (-1), p.2.2.tail)
    let rec go (p : List Token × Int × List Int) : Nat → List Token × Int × List Int
      | 0 => p
      | n + 1 => if column < p.2.1 then go (close p) n else p
    let (queue, indent, indents) := go (s.queue, s.indent, s.indents) s.indents.length
    set { s with queue, indent, indents }

/-! ## Places for keys -/

/-- The error for a key that had to come. -/
def missingColon {α : Type} (mark : Mark) : Lex α :=
  fail "could not find expected ':'" (some ("while scanning a simple key", mark))

/-- Gives up the places for keys that are in an earlier line or too far back. -/
def dropStaleKeys : Lex Unit := do
  let s ← get
  let isStale (k : KeyPlace) : Bool :=
    k.possible && (k.mark.line < s.mark.line || k.mark.index + 1024 < s.mark.index)
  match s.keys.find? fun k => isStale k && k.required with
  | some k => missingColon k.mark
  | none =>
    set { s with keys := s.keys.map fun k => if isStale k then { k with possible := false } else k }

/-- Gives up the place for a key on the innermost level. -/
def dropKey : Lex Unit := do
  let s ← get
  match s.keys with
  | [] => pure ()
  | k :: rest =>
    if k.possible && k.required then missingColon k.mark
    else set { s with keys := { k with possible := false } :: rest }

/-- Remembers that a key may begin here, where keys are allowed. -/
def saveKey : Lex Unit := do
  if (← get).keyAllowed then
    dropKey
    modify fun s =>
      { s with
        keys :=
          { possible := true
            required := s.flowLevel == 0 && s.indent == (s.mark.column : Int)
            number := s.taken + s.queue.length
            mark := s.mark } :: s.keys.tail }

/-- Says whether a key may begin from here on. -/
def allowKey (allowed : Bool) : Lex Unit := modify fun s => { s with keyAllowed := allowed }

/-! ## Blanks and comments -/

/-- Goes on to the next token. -/
def skipToToken : Lex Unit := do
  discard <| loop () fun _ => do
    let s ← get
    match s.rest.head? with
    | none => return ((), false)
    | some c =>
      if c == ' ' || (c == '\t' && (s.flowLevel != 0 || !s.keyAllowed))
          || (c == byteOrderMark && s.mark.index == 0) then
        skip 1
        return ((), true)
      else if c == '#' then
        discard <| takeWhile fun c => !isBreak c
        return ((), true)
      else if isBreak c then
        discard takeBreak
        if s.flowLevel == 0 then allowKey true
        return ((), true)
      else return ((), false)

end Lexer

end GoDraft.Yaml
