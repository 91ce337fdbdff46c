import GoDraft.Scan.Scanner
import GoDraft.Text.Basic

/-!
# GoDraft — scanning by byte offset

A walker goes through the bytes of a text one at a time and can be sent forward to an offset. The
questions asked about an offset — its zone, its depth, whether a member of a class can begin there —
are answered by a walker from the start of the text.

* `Walker.next?`, `Walker.advanceTo` — the two moves;
* `spotAt?`, `depthAt`, `isCodeAt`, `isMemberAt` — what stands at an offset;
* `matchingBrace?` — the end of a block.
-/

namespace GoDraft

/-- A byte of a text with its offset, its zone and the depth before it. -/
structure Spot where
  offset : Nat
  byte : UInt8
  zone : Zone
  depth : Nat
  deriving DecidableEq, Repr

/-- A scanner on its way through the bytes of a text. -/
structure Walker where
  scanner : Scanner
  position : Nat
  rest : List UInt8

namespace Walker

/-- A walker that begins at an offset, in code and at depth zero. An offset past the end counts as
the end. -/
def startingAt (bytes : List UInt8) (offset : Nat) : Walker :=
  ⟨.start, min offset bytes.length, bytes.drop offset⟩

/-- The next byte, and the walker behind it. -/
def next? (w : Walker) : Option (Spot × Walker) :=
  match w.rest with
  | [] => none
  | b :: rest =>
    let r := w.scanner.read b rest
    some (⟨w.position, b, r.1, w.scanner.depth⟩, ⟨r.2, w.position + 1, rest⟩)

/-- The walker some bytes further on, or at the end. -/
def advance : Nat → Walker → Walker
  | 0, w => w
  | n + 1, w =>
    match w.next? with
    | none => w
    | some (_, w') => advance n w'

/-- The walker at an offset ahead of it, or at the end; it never goes back. -/
def advanceTo (w : Walker) (offset : Nat) : Walker := advance (offset - w.position) w

end Walker

/-! ## What stands at an offset -/

/-- The depth before an offset; past the end, the depth at the end. -/
def depthAt (t : Text) (offset : Nat) : Nat :=
  ((Walker.startingAt t.bytes 0).advanceTo offset).scanner.depth

/-- The byte at an offset; past the end there is none. -/
def spotAt? (t : Text) (offset : Nat) : Option Spot :=
  (((Walker.startingAt t.bytes 0).advanceTo offset).next?).map Prod.fst

/-- Whether an offset is inside a class body and outside the blocks in it. -/
def isClassLevel (t : Text) (offset : Nat) : Bool := depthAt t offset == 1

/-- Whether the byte at an offset is code. -/
def isCodeAt (t : Text) (offset : Nat) : Bool :=
  match spotAt? t offset with
  | some s => s.zone.isCode
  | none => false

/-- Whether a member of a class can begin at an offset: code at depth one. -/
def isMemberAt (t : Text) (offset : Nat) : Bool :=
  match spotAt? t offset with
  | some s => s.depth == 1 && s.zone.isCode
  | none => false

/-! ## Blocks -/

/-- The byte of a closing brace. -/
def closeBraceByte : UInt8 := 0x7d

/-- The byte of an opening brace. -/
def openBraceByte : UInt8 := 0x7b

/-- The offset of the brace that closes the block opened at an offset. There is none when the offset
holds no opening brace or the block is never closed. -/
def matchingBrace? (t : Text) (start : Nat) : Option Nat :=
  let block := t.bytes.drop start
  if block.head? = some openBraceByte then
    ((scan block).findIdx? fun s => s.letter == closeBraceByte && s.zone.isCode && s.depth == 1).map
      (start + ·)
  else none

end GoDraft
