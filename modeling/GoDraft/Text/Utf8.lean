import GoDraft.Text.Basic

/-!
# GoDraft — reading UTF-8

Bytes become text. `Text.ofBytes?` refuses bytes that are no UTF-8; `Text.ofBytesLossy` puts the
replacement character in place of every longest part that begins a character and does not end it.
-/

namespace GoDraft

/-- What stands at the front of some bytes, and how many of them it takes. -/
inductive Decoded where
  | char (c : Char) (size : Nat)
  | bad (size : Nat)

/-- The number of bytes that follow a first byte, and the bounds of the one right after it. -/
def continuation? (b : Nat) : Option (Nat × Nat × Nat) :=
  if 0xc2 ≤ b ∧ b ≤ 0xdf then some (1, 0x80, 0xbf)
  else if b = 0xe0 then some (2, 0xa0, 0xbf)
  else if b = 0xed then some (2, 0x80, 0x9f)
  else if 0xe1 ≤ b ∧ b ≤ 0xef then some (2, 0x80, 0xbf)
  else if b = 0xf0 then some (3, 0x90, 0xbf)
  else if 0xf1 ≤ b ∧ b ≤ 0xf3 then some (3, 0x80, 0xbf)
  else if b = 0xf4 then some (3, 0x80, 0x8f)
  else none

/-- The bits that a first byte gives to its character, where `follow` bytes follow it. -/
def leadBits (b follow : Nat) : Nat := b % Nat.pow 2 (6 - follow)

/-- Reads the bytes that follow a first byte: `value` is what has been read, `size` the number of
bytes so far, `follow` the number still to come and `low`, `high` the bounds of the next. -/
def decodeRest (value size low high : Nat) : Nat → List UInt8 → Decoded
  | 0, _ => .char (Char.ofNat value) size
  | _ + 1, [] => .bad size
  | follow + 1, b :: rest =>
    if low ≤ b.toNat ∧ b.toNat ≤ high then
      decodeRest (value * 64 + b.toNat % 64) (size + 1) 0x80 0xbf follow rest
    else .bad size

/-- What stands at the front of the bytes `b :: rest`. -/
def decodeFront (b : UInt8) (rest : List UInt8) : Decoded :=
  if b.toNat < 0x80 then .char (Char.ofNat b.toNat) 1
  else
    match continuation? b.toNat with
    | none => .bad 1
    | some (follow, low, high) => decodeRest (leadBits b.toNat follow) 1 low high follow rest

namespace Text

/-- The characters of some bytes, after the next `skip` bytes; `none` for a part that is no
character. -/
def decodeFrom (skip : Nat) : List UInt8 → List (Option Char)
  | [] => []
  | b :: rest =>
    match skip with
    | n + 1 => decodeFrom n rest
    | 0 =>
      match decodeFront b rest with
      | .char c size => some c :: decodeFrom (size - 1) rest
      | .bad size => none :: decodeFrom (size - 1) rest

/-- The text that some bytes spell in UTF-8. -/
def ofBytes? (bytes : List UInt8) : Option Text := (decodeFrom 0 bytes).mapM id

/-- The text that some bytes spell, with a replacement character for every part that is none. -/
def ofBytesLossy (bytes : List UInt8) : Text :=
  (decodeFrom 0 bytes).map (·.getD (Char.ofNat 0xfffd))

end Text

end GoDraft
