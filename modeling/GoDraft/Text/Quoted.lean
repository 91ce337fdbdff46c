import GoDraft.Text.Basic
import GoDraft.Text.CombiningMark
import GoDraft.Text.Printable

/-!
# GoDraft — quoted text

How a text is shown in a message: between double quotes, with the characters that would be lost or
mistaken there written as escapes.
-/

namespace GoDraft

/-- The hexadecimal digits of a number, in lower case. -/
def hexDigits (n : Nat) : Text := Nat.toDigits 16 n

/-- A character by its code point, as `\u` and the digits in braces. -/
def codePointEscape (c : Char) : Text := "\\u\x7b" ++ hexDigits c.toNat ++ "\x7d"

/-- A character as it is shown inside quotes. A single quote is escaped only where `single` asks for
it. -/
def quotedChar (single : Bool) (c : Char) : Text :=
  if c = '\x00' then "\\0"
  else if c = '\t' then "\\t"
  else if c = '\r' then "\\r"
  else if c = '\n' then "\\n"
  else if c = '"' then "\\\""
  else if c = '\\' then "\\\\"
  else if c = '\'' ∧ single then "\\'"
  else if isExtender c || !isPrintable c then codePointEscape c
  else [c]

/-- A text between double quotes. -/
def Text.quoted (t : Text) : Text := "\"" ++ t.flatMap (quotedChar false) ++ "\""

/-- A file name between double quotes; single quotes are escaped as well. -/
def Text.quotedName (t : Text) : Text := "\"" ++ t.flatMap (quotedChar true) ++ "\""

/-- A list of texts, each quoted, in brackets. -/
def quotedList (ts : List Text) : Text := "[" ++ Text.join ", " (ts.map Text.quoted) ++ "]"

end GoDraft
