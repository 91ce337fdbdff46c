import GoDraft.Yaml.Property

/-!
# GoDraft — the tokens of a YAML text, on demand

* `Lexer.fetch` — reads one more token;
* `Lexer.peek` — the next token, once no key can begin before it any more;
* `Lexer.drop` — takes the next token away.
-/

namespace GoDraft.Yaml

namespace Lexer

/-! ## One token -/

/-- Reads the end of the text. -/
def fetchEnd : Lex Unit := do
  modify fun s =>
    if s.mark.column == 0 then s
    else { s with mark := { s.mark with line := s.mark.line + 1, column := 0 } }
  unrollIndent (-1)
  dropKey
  allowKey false
  let mark := (← get).mark
  push .streamEnd mark mark
  modify fun s => { s with ended := true }

/-- Begins a part of the text in which no block is open. -/
def leaveBlocks : Lex Unit := do
  unrollIndent (-1)
  dropKey
  allowKey false

/-- Reads a bracket that opens a flow collection. -/
def openFlow (sign : Sign) : Lex Unit := do
  saveKey
  modify fun s => { s with keys := {} :: s.keys, flowLevel := s.flowLevel + 1, keyAllowed := true }
  pushSign sign 1

/-- Reads a bracket that closes a flow collection. -/
def closeFlow (sign : Sign) : Lex Unit := do
  dropKey
  modify fun s =>
    if s.flowLevel == 0 then s else { s with keys := s.keys.tail, flowLevel := s.flowLevel - 1 }
  allowKey false
  pushSign sign 1

/-- Opens a block here, where one is allowed. -/
def openBlock (sign : Sign) (problem : Text) : Lex Unit := do
  let s ← get
  if s.flowLevel == 0 then
    if !s.keyAllowed then fail problem none
    rollIndent s.mark.column none sign s.mark

/-- Reads a colon. What could be a key before it, is one. -/
def fetchValue : Lex Unit := do
  let s ← get
  match s.keys.head? with
  | some k =>
    if k.possible then
      insert k.number .key k.mark
      rollIndent k.mark.column (some k.number) .blockMappingStart k.mark
      modify fun s => { s with keys := { k with possible := false } :: s.keys.tail }
      allowKey false
    else withoutKey s
  | none => withoutKey s
  pushSign .value 1
where
  /-- A colon with no key before it. -/
  withoutKey (s : Lexer) : Lex Unit := do
    openBlock .blockMappingStart "mapping values are not allowed in this context"
    allowKey (s.flowLevel == 0)

/-- Whether a plain scalar can begin with a character. -/
def startsPlain (s : Lexer) (c : Char) : Bool :=
  let indicators : Text :=
    ['-', '?', ':', ',', '[', ']', '{', '}', '#', '&', '*', '!', '|', '>', '\'', '"', '%', '@', '`']
  !(isGap c || isBreak c || indicators.elem c)
    || (c == '-' && !(s.rest[1]?).any isGap)
    || (s.flowLevel == 0 && (c == '?' || c == ':') && !s.isSpacedAt 1)

/-- Reads the token that begins with a character. -/
def fetchAt (c : Char) : Lex Unit := do
  let s ← get
  let inFlow := s.flowLevel != 0
  let spaced := s.isSpacedAt 1
  if c == '%' && s.mark.column == 0 then
    leaveBlocks
    directive
  else if s.isDocumentSign then
    leaveBlocks
    pushSign (if c == '-' then .documentStart else .documentEnd) 3
  else if c == '[' then openFlow .flowSequenceStart
  else if c == '{' then openFlow .flowMappingStart
  else if c == ']' then closeFlow .flowSequenceEnd
  else if c == '}' then closeFlow .flowMappingEnd
  else if c == ',' then
    dropKey
    allowKey true
    pushSign .flowEntry 1
  else if c == '-' && spaced then
    openBlock .blockSequenceStart "block sequence entries are not allowed in this context"
    dropKey
    allowKey true
    pushSign .blockEntry 1
  else if c == '?' && (inFlow || spaced) then
    openBlock .blockMappingStart "mapping keys are not allowed in this context"
    dropKey
    allowKey !inFlow
    pushSign .key 1
  else if c == ':' && (inFlow || spaced) then fetchValue
  else if c == '*' || c == '&' then
    saveKey
    allowKey false
    let name ← anchorName
    push (if c == '*' then .alias name else .anchor name) s.mark (← get).mark
  else if c == '!' then
    saveKey
    allowKey false
    tagSign
  else if (c == '|' || c == '>') && !inFlow then
    dropKey
    allowKey true
    blockScalar (c == '>')
  else if c == '\'' || c == '"' then
    saveKey
    allowKey false
    quotedScalar (c == '\'')
  else if startsPlain s c then
    saveKey
    allowKey false
    plainScalar
  else
    fail "found character that cannot start any token"
      (some ("while scanning for the next token", s.mark))

/-- Reads one more token, with the block signs before it. -/
def fetch : Lex Unit := do
  if !(← get).started then
    let mark := (← get).mark
    modify fun s => { s with started := true, keys := [{}], keyAllowed := true }
    push .streamStart mark mark
  else
    skipToToken
    dropStaleKeys
    unrollIndent ((← get).mark.column : Int)
    match ← front with
    | none => fetchEnd
    | some c => fetchAt c

/-- Whether the next token is not settled yet: there is none, or it may still become a key. -/
def needsMore (s : Lexer) : Bool :=
  !s.ended && (s.queue.isEmpty || s.keys.any fun k => k.possible && k.number == s.taken)

/-- Reads tokens until the next one is settled. -/
def settle : Lex Unit := do
  let bound := (← get).rest.length + 4
  let step (_ : Unit) : Lex (Option Unit) := do
    let s ← get
    if !s.queue.isEmpty then dropStaleKeys
    if (← get).needsMore then
      fetch
      return some ()
    else return none
  iterate step bound ()

/-- The next token; at the end, always the end. -/
def peek : Lex Token := do
  settle
  let s ← get
  return s.queue.headD ⟨.streamEnd, s.mark, s.mark⟩

/-- Takes the next token away. -/
def drop : Lex Unit :=
  modify fun s => { s with queue := s.queue.tail, taken := s.taken + 1 }

end Lexer

end GoDraft.Yaml
