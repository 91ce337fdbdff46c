import GoDraft.Text.Basic
import GoDraft.Text.CodeRanges

/-!
# GoDraft — blanks

The characters with the Unicode property White_Space, and what is done with them at the ends of a
text and between words.
-/

namespace GoDraft

/-- The blanks from U+0080 on. -/
def blankRanges : CodeRanges :=
  [(0x85, 0x85), (0xa0, 0xa0), (0x1680, 0x1680), (0x2000, 0x200a), (0x2028, 0x2029),
   (0x202f, 0x202f), (0x205f, 0x205f), (0x3000, 0x3000)]

/-- Whether a character is a blank. -/
def isBlank (c : Char) : Bool :=
  if c.toNat < 128 then (9 ≤ c.toNat && c.toNat ≤ 13) || c == ' ' else blankRanges.has c

/-- Whether a character is one of the five blanks space, tab, line feed, form feed and carriage
return. -/
def isPlainBlank (c : Char) : Bool :=
  c == ' ' || c == '\t' || c == '\n' || c == '\x0c' || c == '\r'

namespace Text

/-- A text without the blanks at its start. -/
def trimStart (t : Text) : Text := t.dropWhile isBlank

/-- A text without the blanks at its end. -/
def trimEnd (t : Text) : Text := (t.reverse.dropWhile isBlank).reverse

/-- A text without the blanks at its ends. -/
def trim (t : Text) : Text := t.trimStart.trimEnd

/-- Whether a text has nothing but blanks. -/
def isBlank (t : Text) : Bool := t.all GoDraft.isBlank

/-- Collects the words of a text; `word` is the one being read, last character first. -/
def wordsFrom (word : Text) : Text → List Text
  | [] => if word.isEmpty then [] else [word.reverse]
  | c :: t =>
    if GoDraft.isBlank c then
      if word.isEmpty then wordsFrom [] t else word.reverse :: wordsFrom [] t
    else wordsFrom (c :: word) t

/-- The words of a text: its longest parts without blanks. -/
def words (t : Text) : List Text := wordsFrom [] t

end Text

end GoDraft
