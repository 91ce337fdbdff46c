import GoDraft.Log

/-!
# GoDraft — decimal numbers as binary numbers of double precision

A finite magnitude of double precision is a natural number of units of two to the power of minus 1074:
a significand below two to the power of 53, shifted to the left. All arithmetic is exact.

* `Decimal.ofText?` — reads a decimal number;
* `Binary64.nearest?` — the magnitude nearest to a fraction, of two the one with an even significand;
* `Decimal.toBinary64?` — the magnitude a decimal number stands for, unless it is too large.
-/

namespace GoDraft

/-- A magnitude of double precision: the significand, shifted to the left, in units of `2 ^ -1074`. -/
structure Binary64 where
  significand : Nat
  shift : Nat
  deriving DecidableEq, Repr

namespace Binary64

/-- The number of units in one. -/
def unitsInOne : Nat := Nat.pow 2 1074

/-- The largest shift of a finite magnitude. -/
def maxShift : Nat := 2045

/-- A quotient rounded to the nearest natural number, a half to the even one. -/
def roundDiv (n d : Nat) : Nat :=
  let q := n / d
  let twice := 2 * (n % d)
  if d < twice ∨ (twice = d ∧ q % 2 = 1) then q + 1 else q

/-- The number of binary digits. -/
def bitLength (n : Nat) : Nat := if n = 0 then 0 else n.log2 + 1

/-- The magnitude nearest to `n / d`; there is none for fractions that are too large. -/
def nearest? (n d : Nat) : Option Binary64 :=
  let units := n * unitsInOne
  let shift := bitLength (units / d) - 53
  let m := roundDiv units (d * Nat.pow 2 shift)
  let rounded : Binary64 := if m = Nat.pow 2 53 then ⟨Nat.pow 2 52, shift + 1⟩ else ⟨m, shift⟩
  if rounded.shift ≤ maxShift then some rounded else none

end Binary64

/-- A decimal number: a sign, and digits times a power of ten. -/
structure Decimal where
  negative : Bool
  digits : Nat
  exponent : Int
  deriving DecidableEq, Repr

namespace Decimal

/-- The number that digits of a base spell; no digits spell none. -/
def digitsValue? (base : Nat) (t : Text) : Option Nat :=
  let value? (c : Char) : Option Nat :=
    let n :=
      if c.isDigit then c.toNat - '0'.toNat
      else if 'a' ≤ c ∧ c ≤ 'f' then c.toNat - 'a'.toNat + 10
      else if 'A' ≤ c ∧ c ≤ 'F' then c.toNat - 'A'.toNat + 10
      else base
    if n < base then some n else none
  if t.isEmpty then none
  else (t.mapM value?).map fun values => values.foldl (fun n d => base * n + d) 0

/-- A sign at the front, and whether it is a minus. -/
def splitSign (t : Text) : Bool × Text :=
  match t with
  | '-' :: rest => (true, rest)
  | '+' :: rest => (false, rest)
  | _ => (false, t)

/-- The exponent behind the digits: none is zero. -/
def exponentOf? : Text → Option Int
  | [] => some 0
  | c :: t =>
    if c = 'e' ∨ c = 'E' then
      let (negative, digits) := splitSign t
      (digitsValue? 10 digits).map fun n => if negative then -(n : Int) else n
    else none

/-- Reads a decimal number: digits with at most one point among or beside them, then perhaps an
exponent. -/
def ofText? (t : Text) : Option Decimal := do
  let (negative, body) := splitSign t
  let whole := body.takeWhile Char.isDigit
  let rest := body.dropWhile Char.isDigit
  let (fraction, rest) : Text × Text := match rest with
    | '.' :: rest => (rest.takeWhile Char.isDigit, rest.dropWhile Char.isDigit)
    | _ => ([], rest)
  let digits ← digitsValue? 10 (whole ++ fraction)
  let exponent ← exponentOf? rest
  return { negative, digits, exponent := exponent - fraction.length }

/-- The magnitude that a decimal number stands for. Far beyond the range of double precision it is not
computed: it is none above and zero below. -/
def toBinary64? (d : Decimal) : Option Binary64 :=
  let size : Int := (decimalText d.digits).length + d.exponent
  if d.digits = 0 ∨ size < -330 then some ⟨0, 0⟩
  else if 320 < size then none
  else if 0 ≤ d.exponent then Binary64.nearest? (d.digits * Nat.pow 10 d.exponent.toNat) 1
  else Binary64.nearest? d.digits (Nat.pow 10 (-d.exponent).toNat)

end Decimal

end GoDraft
