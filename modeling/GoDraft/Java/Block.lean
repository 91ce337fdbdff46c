import GoDraft.Fault
import GoDraft.Scan.Walker
import GoDraft.Text.Blank
import GoDraft.Text.WordChar

/-!
# GoDraft — the end of a block

A block ends at the brace that matches its opening one. In a text whose braces do not balance, it
ends at the first closing brace in code that looks like the end of a member: another closing brace,
the end of the text or, where that is allowed, a word comes next.
-/

namespace GoDraft

/-- Whether what follows a closing brace lets it end a member. -/
def endsMember (after : Text) (allowWord : Bool) : Bool :=
  match after.trimStart.head? with
  | none => true
  | some c => c == '}' || (allowWord && isNameChar c)

/-- The offsets of the closing braces in code, scanned from an offset on. -/
def closingBraces (t : Text) (start : Nat) : List Nat :=
  (((scan (t.bytes.drop start)).zipIdx start).filter fun s =>
    s.1.letter == closeBraceByte && s.1.zone.isCode).map Prod.snd

/-- The first of some offsets of closing braces that ends a member. -/
def firstMemberEnd (t : Text) (allowWord : Bool) : List Nat → Except Fault (Option Nat)
  | [] => .ok none
  | close :: rest => do
    let after ← t.slice (close + 1) t.size
    if endsMember after allowWord then return some close
    else firstMemberEnd t allowWord rest

/-- The offset of the brace that ends the block opened at an offset. -/
def blockEnd (t : Text) (start : Nat) (allowWord : Bool) : Except Fault (Option Nat) :=
  match matchingBrace? t start with
  | some close => .ok (some close)
  | none => firstMemberEnd t allowWord (closingBraces t (start + 1))

end GoDraft
