/-!
# GoDraft — zones of a source text

Every letter of a Java text belongs to one zone: code, a quoted literal, a line comment or a block
comment. Telling zones apart takes little from a letter, its `Mark`, and all marks but `plain` are
ASCII characters. A text can therefore be read by characters or by the bytes of its UTF-8 form, with
the same outcome; `Marked` is what the two readings share.
-/

namespace GoDraft

/-- The delimiter of a literal. -/
inductive Quote where
  | double
  | single
  deriving DecidableEq, Repr

/-- The lexical part of the text that a letter belongs to. -/
inductive Zone where
  | code
  | literal (q : Quote)
  | lineComment
  | blockComment
  deriving DecidableEq, Repr

/-- Whether the zone is code. -/
def Zone.isCode : Zone → Bool
  | .code => true
  | _ => false

/-- Whether the zone is a comment of either kind. -/
def Zone.isComment : Zone → Bool
  | .lineComment | .blockComment => true
  | _ => false

/-- What the scanner looks at in a letter. -/
inductive Mark where
  | quote (q : Quote)
  | slash
  | star
  | backslash
  | newline
  | openBrace
  | closeBrace
  | plain
  deriving DecidableEq, Repr

/-- The mark of an ASCII character by its code; `plain` for every other number. -/
def Mark.ofCode (n : Nat) : Mark :=
  if n = 0x22 then .quote .double
  else if n = 0x27 then .quote .single
  else if n = 0x2f then .slash
  else if n = 0x2a then .star
  else if n = 0x5c then .backslash
  else if n = 0x0a then .newline
  else if n = 0x7b then .openBrace
  else if n = 0x7d then .closeBrace
  else .plain

/-- Letters that carry a mark. -/
class Marked (α : Type) where
  mark : α → Mark

instance : Marked Char := ⟨fun c => .ofCode c.toNat⟩

instance : Marked UInt8 := ⟨fun b => .ofCode b.toNat⟩

end GoDraft
