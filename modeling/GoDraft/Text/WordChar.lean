import GoDraft.Text.Alphabetic
import GoDraft.Text.CombiningMark
import GoDraft.Text.Numeral

/-!
# GoDraft — characters of words

Two classes of characters make up names. `isWordChar` is what a pattern takes for a part of a word:
letters, combining marks, decimal digits, connecting punctuation and the two joiners.
`isAlphanumeric` is narrower on marks and wider on numerals: letters and numerals of every kind.
-/

namespace GoDraft

/-- The connecting punctuation and the joiners from U+0080 on. -/
def connectorRanges : CodeRanges :=
  [(0x200c, 0x200d), (0x203f, 0x2040), (0x2054, 0x2054), (0xfe33, 0xfe34), (0xfe4d, 0xfe4f),
   (0xff3f, 0xff3f)]

/-- Whether a character is part of a word. -/
def isWordChar (c : Char) : Bool :=
  if c.toNat < 128 then c.isAlphanum || c == '_'
  else alphabeticRanges.has c || markRanges.has c || decimalRanges.has c || connectorRanges.has c

/-- Whether a character is a letter or a numeral. -/
def isAlphanumeric (c : Char) : Bool :=
  if c.toNat < 128 then c.isAlphanum else isAlphabetic c || isNumeral c

/-- Whether a character continues a name next to a keyword. -/
def isNameChar (c : Char) : Bool := isAlphanumeric c || c == '_'

end GoDraft
