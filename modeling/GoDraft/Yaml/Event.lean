import GoDraft.Yaml.TokenStream

/-!
# GoDraft — the events of a YAML document

A document is the series of its scalars and of the starts and ends of its collections. What is still
to be read is kept as a stack of goals; a goal takes tokens, gives at most a few events, and leaves
the goals that come in its place. Events before an error stay.

* `Goal.step` — what a goal comes to;
* `Document.ofText` — the first document of a text.
-/

namespace GoDraft.Yaml

/-- A part of a document. An alias tells the number of the event it stands for. -/
inductive Event where
  | scalar (tag? : Option Text) (value : Text) (style : Style)
  | alias (target : Nat)
  | sequenceStart
  | sequenceEnd
  | mappingStart
  | mappingEnd
  deriving DecidableEq, Repr

/-- A text while its events are read. -/
structure Reader where
  lexer : Lexer
  /-- What the handles of tags stand for. -/
  handles : List (Text × Text) := []
  events : List (Event × Mark) := []
  /-- The names of anchors, each with its number. -/
  anchors : List (Text × Nat) := []
  /-- The event that has the anchor of a number, latest first. -/
  anchored : List (Nat × Nat) := []

/-- Reading may fail with a syntax error; the events before it are kept. -/
abbrev Read := ExceptT SyntaxError (StateM Reader)

/-! ## Tokens and events -/

namespace Reader

/-- Does something with the tokens. -/
def lexed {α : Type} (action : Lex α) : Read α := do
  match action.run (← get).lexer with
  | .ok (result, lexer) =>
    modify fun r => { r with lexer }
    return result
  | .error e => throw e

/-- The next token. -/
def peek : Read Token := lexed Lexer.peek

/-- Takes the next token away, and gives the one behind it. -/
def advance : Read Token := do
  lexed Lexer.drop
  peek

/-- Takes the next token away. -/
def drop : Read Unit := lexed Lexer.drop

/-- Fails, with a problem at a token. -/
def failAt {α : Type} (problem : Text) (token : Token) (context? : Option (Text × Mark)) : Read α :=
  throw { problem, mark := token.start, context? }

/-- Adds an event. -/
def emit (event : Event) (mark : Mark) : Read Unit :=
  modify fun r => { r with events := r.events ++ [(event, mark)] }

/-- Adds an event that may have an anchor. -/
def emitAnchored (event : Event) (mark : Mark) (anchor? : Option Text) : Read Unit := do
  match anchor? with
  | none => pure ()
  | some name =>
    modify fun r =>
      let number := r.anchors.length
      { r with
        anchors := (name, number) :: r.anchors.filter (fun a => a.1 ≠ name)
        anchored := (number, r.events.length) :: r.anchored }
  emit event mark

/-- Adds the scalar that stands where nothing is written. -/
def emitEmpty (mark : Mark) : Read Unit := emit (.scalar none [] .plain) mark

/-- Adds an alias. -/
def emitAlias (name : Text) (mark : Mark) : Read Unit := do
  let r ← get
  match (r.anchors.lookup name).bind fun number => r.anchored.lookup number with
  | some target => emit (.alias target) mark
  | none => throw { problem := "unknown anchor", mark }

/-- The full text of a tag. -/
def fullTag (handle suffix : Text) (mark start : Mark) : Read Text := do
  if handle.isEmpty then return suffix
  match (← get).handles.lookup handle with
  | some full => return full ++ suffix
  | none =>
    throw { problem := "found undefined tag handle", mark
            context? := some ("while parsing a node", start) }

end Reader

open Reader

/-! ## Goals -/

/-- Something that has to be read next. -/
inductive Goal where
  /-- A value; block collections only where blocks are allowed, and the entries of a sequence with no
  indentation of their own only as values of a mapping. -/
  | node (inBlock unindented : Bool)
  /-- The next entry of a block sequence, or its end. -/
  | blockEntry (opened : Mark)
  /-- The next entry of a sequence with no indentation of its own, or its end. -/
  | unindentedEntry
  /-- The next key of a block mapping, or its end. -/
  | blockKey (opened : Mark)
  | blockValue
  /-- The next entry of a flow sequence, or its end. -/
  | flowEntry (first : Bool) (opened : Mark)
  /-- The key, the value and the end of a mapping of one pair, as an entry of a flow sequence. -/
  | pairKey
  | pairValue
  | pairEnd
  /-- The next key of a flow mapping, or its end. -/
  | flowKey (first : Bool) (opened : Mark)
  | flowValue
  /-- The value of a key that has no colon. -/
  | flowNothing
  deriving DecidableEq, Repr

namespace Goal

/-- The anchor and the tag before a value. -/
structure Properties where
  anchor? : Option Text := none
  /-- A tag, by its handle and the rest, and its place. -/
  tag? : Option (Text × Text × Mark) := none

/-- Reads an anchor and a tag, in any order. -/
def properties : Read Properties := do
  let token ← peek
  match token.sign with
  | .anchor name =>
    let next ← advance
    match next.sign with
    | .tag handle suffix =>
      discard advance
      return { anchor? := some name, tag? := some (handle, suffix, next.start) }
    | _ => return { anchor? := some name }
  | .tag handle suffix =>
    let next ← advance
    match next.sign with
    | .anchor name =>
      discard advance
      return { anchor? := some name, tag? := some (handle, suffix, token.start) }
    | _ => return { tag? := some (handle, suffix, token.start) }
  | _ => return {}

/-- Reads a value, down to the start of a collection. -/
def readNode (inBlock unindented : Bool) : Read (List Goal) := do
  let token ← peek
  match token.sign with
  | .alias name =>
    drop
    emitAlias name token.start
    return []
  | _ =>
    let start := token.start
    let p ← properties
    let token ← peek
    let tag? ← match p.tag? with
      | none => pure none
      | some (handle, suffix, mark) => pure (some (← fullTag handle suffix mark start))
    let opened (event : Event) (goal : Goal) : Read (List Goal) := do
      emitAnchored event start p.anchor?
      return [goal]
    match token.sign with
    | .scalar value style =>
      drop
      emitAnchored (.scalar tag? value style) start p.anchor?
      return []
    | .flowSequenceStart =>
      drop
      opened .sequenceStart (.flowEntry true token.start)
    | .flowMappingStart =>
      drop
      opened .mappingStart (.flowKey true token.start)
    | sign =>
      if sign = .blockEntry ∧ unindented then opened .sequenceStart .unindentedEntry
      else if sign = .blockSequenceStart ∧ inBlock then
        drop
        opened .sequenceStart (.blockEntry token.start)
      else if sign = .blockMappingStart ∧ inBlock then
        drop
        opened .mappingStart (.blockKey token.start)
      else if p.anchor?.isSome || tag?.isSome then
        emitAnchored (.scalar tag? [] .plain) start p.anchor?
        return []
      else
        let context : Text :=
          if inBlock then "while parsing a block node" else "while parsing a flow node"
        failAt "did not find expected node content" token (some (context, start))

/-- Reads a value, or leaves it empty where one of some signs follows. -/
def orEmpty (token : Token) (ends : List Sign) (mark : Mark) (node : Goal) (rest : List Goal) :
    Read (List Goal) := do
  if ends.elem token.sign then
    emitEmpty mark
    return rest
  else return node :: rest

/-- What a goal comes to: it takes tokens and gives events, and these goals are left in its place. -/
def step (goal : Goal) : Read (List Goal) := do
  match goal with
  | .node inBlock unindented => readNode inBlock unindented
  | .blockEntry opened =>
    let token ← peek
    match token.sign with
    | .blockEntry =>
      orEmpty (← advance) [.blockEntry, .blockEnd] token.stop (.node true false) [goal]
    | .blockEnd =>
      drop
      emit .sequenceEnd token.start
      return []
    | _ =>
      failAt "did not find expected '-' indicator" token
        (some ("while parsing a block collection", opened))
  | .unindentedEntry =>
    let token ← peek
    match token.sign with
    | .blockEntry =>
      orEmpty (← advance) [.blockEntry, .key, .value, .blockEnd] token.stop (.node true false) [goal]
    | _ =>
      emit .sequenceEnd token.start
      return []
  | .blockKey opened =>
    let token ← peek
    match token.sign with
    | .key =>
      orEmpty (← advance) [.key, .value, .blockEnd] token.stop (.node true true) [.blockValue, goal]
    | .blockEnd =>
      drop
      emit .mappingEnd token.start
      return []
    | _ =>
      failAt "did not find expected key" token (some ("while parsing a block mapping", opened))
  | .blockValue =>
    let token ← peek
    match token.sign with
    | .value => orEmpty (← advance) [.key, .value, .blockEnd] token.stop (.node true true) []
    | _ =>
      emitEmpty token.start
      return []
  | .flowEntry first opened =>
    let token ← nextItem first .flowSequenceEnd "did not find expected ',' or ']'"
      ("while parsing a flow sequence", opened)
    match token.sign with
    | .key =>
      emit .mappingStart token.start
      drop
      return [.pairKey, .flowEntry false opened]
    | .flowSequenceEnd =>
      emit .sequenceEnd token.start
      drop
      return []
    | _ => return [.node false false, .flowEntry false opened]
  | .pairKey =>
    let token ← peek
    if [Sign.value, .flowEntry, .flowSequenceEnd].elem token.sign then
      drop
      emitEmpty token.stop
      return [.pairValue]
    else return [.node false false, .pairValue]
  | .pairValue =>
    let token ← peek
    if token.sign = .value then
      let next ← advance
      orEmpty next [.flowEntry, .flowSequenceEnd] next.start (.node false false) [.pairEnd]
    else
      emitEmpty token.start
      return [.pairEnd]
  | .pairEnd =>
    emit .mappingEnd (← peek).start
    return []
  | .flowKey first opened =>
    let token ← nextItem first .flowMappingEnd "did not find expected ',' or '\x7d'"
      ("while parsing a flow mapping", opened)
    let later := Goal.flowKey false opened
    match token.sign with
    | .key =>
      let next ← advance
      orEmpty next [.value, .flowEntry, .flowMappingEnd] next.start (.node false false)
        [.flowValue, later]
    | .flowMappingEnd =>
      emit .mappingEnd token.start
      drop
      return []
    | _ => return [.node false false, .flowNothing, later]
  | .flowValue =>
    let token ← peek
    if token.sign = .value then
      let next ← advance
      orEmpty next [.flowEntry, .flowMappingEnd] next.start (.node false false) []
    else
      emitEmpty token.start
      return []
  | .flowNothing =>
    emitEmpty (← peek).start
    return []
where
  /-- The token at the next item of a flow collection, behind the comma that has to come. -/
  nextItem (first : Bool) (close : Sign) (problem : Text) (context : Text × Mark) : Read Token := do
    let token ← peek
    if token.sign = close || first then return token
    else if token.sign = .flowEntry then advance
    else failAt problem token (some context)

/-- Reaches the goals of a stack, one after the other, in at most `bound` steps. -/
def reach : Nat → List Goal → Read Unit
  | _, [] => pure ()
  | 0, _ => pure ()
  | bound + 1, goal :: rest => do
    let goals ← goal.step
    reach bound (goals ++ rest)

end Goal

/-! ## Documents -/

/-- The first document of a text. -/
structure Document where
  events : List (Event × Mark)
  /-- The error that its events end with. -/
  error? : Option SyntaxError := none
  /-- Whether anything comes after it. -/
  hasMore : Bool := false

namespace Document

/-- The handles that need no directive. -/
def usualHandles : List (Text × Text) := [(['!'], ['!']), (['!', '!'], "tag:yaml.org,2002:")]

/-- Reads directives, each kind of version and handle at most once. -/
def directives : Nat → Bool → List (Text × Text) → Read Unit
  | 0, _, handles => finish handles
  | bound + 1, versioned, handles => do
    let token ← peek
    match token.sign with
    | .versionDirective major minor =>
      if versioned then failAt "found duplicate %YAML directive" token none
      if major != 1 || (minor != 1 && minor != 2) then
        failAt "found incompatible YAML document" token none
      drop
      directives bound true handles
    | .tagDirective handle full =>
      if (handles.lookup handle).isSome then failAt "found duplicate %TAG directive" token none
      drop
      directives bound versioned (handles ++ [(handle, full)])
    | _ => finish handles
where
  /-- The usual handles can be given another meaning. -/
  finish (handles : List (Text × Text)) : Read Unit :=
    modify fun r => { r with handles := handles ++ usualHandles }

/-- Reads the first document, if there is one, up to the token behind it. -/
def readFirst (bound : Nat) : Read Unit := do
  discard peek
  let token ← advance
  match token.sign with
  | .streamEnd => return ()
  | .versionDirective .. | .tagDirective .. | .documentStart =>
    directives bound false []
    let start ← peek
    if start.sign ≠ .documentStart then
      failAt "did not find expected <document start>" start none
    let token ← advance
    match token.sign with
    | .versionDirective .. | .tagDirective .. | .documentStart | .documentEnd | .streamEnd =>
      emitEmpty token.start
    | _ => Goal.reach bound [.node true false]
    discard peek
  | _ =>
    directives 0 false []
    Goal.reach bound [.node true false]
    discard peek

/-- Goes on behind the ends of documents, and tells whether the text ends there. -/
def atEnd : Nat → Read Bool
  | 0 => return false
  | bound + 1 => do
    match (← peek).sign with
    | .documentEnd =>
      drop
      atEnd bound
    | .streamEnd => return true
    | _ => return false

/-- Whether a character may stand in a text. -/
def allows (c : Char) : Bool :=
  let n := c.toNat
  n == 0x09 || n == 0x0a || n == 0x0d || (0x20 ≤ n && n ≤ 0x7e) || n == 0x85
    || (0xa0 ≤ n && n ≤ 0xfffd) || 0x10000 ≤ n

/-- The first document of a text. -/
def ofText (t : Text) : Document :=
  let marked := t.head? = some byteOrderMark
  let body : Text := if marked then t.tail else t
  if body.all allows then
    let bound := 16 * (body.length + 4)
    match (readFirst bound).run.run { lexer := { rest := body } } with
    | (.error e, r) => { events := r.events, error? := some e }
    | (.ok _, r) =>
      match (atEnd bound).run.run r with
      | (.ok true, _) => { events := r.events }
      | _ => { events := r.events, hasMore := true }
  else
    let offset := Text.size ((if marked then t.take 1 else []) ++ body.takeWhile allows)
    { events := []
      error? := some { problem := "control characters are not allowed", mark := {}, offset } }

end Document

end GoDraft.Yaml
