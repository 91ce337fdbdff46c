import GoDraft.Text.Utf8
import GoDraft.Yaml.ScalarText

/-!
# GoDraft — reading anchors, tags and directives of a YAML text

* `Lexer.anchorName` — the name of an anchor or an alias;
* `Lexer.tagSign` — a tag, as its handle and the rest;
* `Lexer.directive` — a version or the meaning of a tag handle.
-/

namespace GoDraft.Yaml

namespace Lexer

/-- Reads the name of an anchor or an alias. -/
def anchorName : Lex Text := do
  let start := (← get).mark
  skip 1
  let name ← takeWhile isNameChar
  let s ← get
  if name.isEmpty
      || !(s.isSpacedAt 0 || s.rest.head?.any ['?', ':', ',', ']', '}', '%', '@', '`'].elem) then
    fail "did not find expected alphabetic or numeric character"
      (some ("while scanning an anchor", start))
  return name

/-- Whether a character can be part of a tag; inside angle brackets and prefixes a few more can. -/
def isTagChar (wide : Bool) (c : Char) : Bool :=
  isNameChar c
    || [';', '/', '?', ':', '@', '&', '=', '+', '$', '.', '%', '!', '~', '*', '\'', '(', ')'].elem c
    || (wide && [',', '[', ']'].elem c)

/-- The number of bytes of a character, by its first byte; zero where no character begins. -/
def byteWidth (n : Nat) : Nat :=
  if n < 0x80 then 1
  else if n < 0xc0 then 0
  else if n < 0xe0 then 2
  else if n < 0xf0 then 3
  else if n < 0xf8 then 4
  else 0

/-- The bytes of a tag with its escaped ones decoded, after the next `skip` characters. While
`pending` is not zero that many more bytes of a character have to come, each escaped. -/
def decodeTag (skip pending : Nat) : Text → Except Text (List UInt8)
  | [] => if pending = 0 then .ok [] else .error "did not find URI escaped octet"
  | c :: rest =>
    match skip with
    | n + 1 => decodeTag n pending rest
    | 0 =>
      if c = '%' then
        match if (rest.take 2).length < 2 then none else hexNumber? (rest.take 2) with
        | none => .error "did not find URI escaped octet"
        | some n =>
          if pending = 0 then
            if byteWidth n = 0 then .error "found an incorrect leading UTF-8 octet"
            else (decodeTag 2 (byteWidth n - 1) rest).map (n.toUInt8 :: ·)
          else if n / 64 = 2 then (decodeTag 2 (pending - 1) rest).map (n.toUInt8 :: ·)
          else .error "found an incorrect trailing UTF-8 octet"
      else if pending = 0 then (decodeTag 0 0 rest).map (c.toNat.toUInt8 :: ·)
      else .error "did not find URI escaped octet"

/-- Reads the text of a tag. -/
def tagText (wide : Bool) (start : Mark) (mayBeEmpty : Bool) : Lex Text := do
  let context := some ("while parsing a tag".toList, start)
  let raw ← takeWhile (isTagChar wide)
  if raw.isEmpty && !mayBeEmpty then fail "did not find expected tag URI" context
  match decodeTag 0 0 raw with
  | .ok bytes => return Text.ofBytesLossy bytes
  | .error problem => fail problem context

/-- Reads a tag. -/
def tagSign : Lex Unit := do
  let start := (← get).mark
  let context := some ("while scanning a tag".toList, start)
  let (handle, suffix) ← do
    if (← get).rest[1]? == some '<' then
      skip 2
      let suffix ← tagText true start false
      if !(← atChar '>') then fail "did not find the expected '>'" context
      skip 1
      pure (([] : Text), suffix)
    else
      skip 1
      let name ← takeWhile isNameChar
      if ← atChar '!' then
        skip 1
        pure (['!'] ++ name ++ ['!'], ← tagText false start false)
      else
        let suffix := name ++ (← tagText false start true)
        pure (if suffix.isEmpty then ([], ['!']) else (['!'], suffix))
  let s ← get
  if !(s.flowLevel != 0 && s.rest.head? == some ',') && !s.isSpacedAt 0 then
    fail "did not find expected whitespace or line break" context
  push (.tag handle suffix) start s.mark

/-- Reads a number of a version. -/
def versionNumber (start : Mark) : Lex Nat := do
  let digits ← takeWhile Char.isDigit
  let context := some ("while scanning a %YAML directive".toList, start)
  if digits.isEmpty then fail "did not find expected version number" context
  else if 9 < digits.length then fail "found extremely long version number" context
  else return digits.foldl (fun n c => 10 * n + (c.toNat - '0'.toNat)) 0

/-- Reads the handle of a tag directive. -/
def directiveHandle (start : Mark) : Lex Text := do
  let context := some ("while scanning a directive".toList, start)
  if !(← atChar '!') then fail "did not find expected '!'" context
  skip 1
  let name ← takeWhile isNameChar
  if ← atChar '!' then
    skip 1
    return ['!'] ++ name ++ ['!']
  else if name.isEmpty then return ['!']
  else fail "did not find expected '!'" (some ("while parsing a directive", start))

/-- Reads a directive. -/
def directive : Lex Unit := do
  let start := (← get).mark
  let context := some ("while scanning a directive".toList, start)
  skip 1
  let name ← takeWhile isNameChar
  if name.isEmpty then fail "could not find expected directive name" context
  if !(← get).isSpacedAt 0 then fail "found unexpected non-alphabetical character" context
  let sign ← do
    if name = "YAML".toList then
      discard <| takeWhile isGap
      let major ← versionNumber start
      if !(← atChar '.') then
        fail "did not find expected digit or '.' character"
          (some ("while scanning a %YAML directive", start))
      skip 1
      pure (Sign.versionDirective major (← versionNumber start))
    else if name = "TAG".toList then
      discard <| takeWhile isGap
      let handle ← directiveHandle start
      if !((← front).any isGap) then
        fail "did not find expected whitespace" (some ("while scanning a %TAG directive", start))
      discard <| takeWhile isGap
      let full ← tagText true start false
      if !(← get).isSpacedAt 0 then
        fail "did not find expected whitespace or line break"
          (some ("while scanning a %TAG directive", start))
      pure (Sign.tagDirective handle full)
    else fail "found unknown directive name" context
  let stop := (← get).mark
  discard <| takeWhile isGap
  if ← atChar '#' then discard <| takeWhile fun c => !isBreak c
  if !(← get).isLineEnd then fail "did not find expected comment or line break" context
  if (← front).isSome then discard takeBreak
  push sign start stop

end Lexer

end GoDraft.Yaml
