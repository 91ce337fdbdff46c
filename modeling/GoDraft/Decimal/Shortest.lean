import GoDraft.Decimal.Binary64

/-!
# GoDraft — the shortest decimal text of a number

The decimal text of a number of double precision has the fewest digits that still read back as that
number; of several such texts it is the nearest, and the upper one of two that are equally near. No
exponent is written.

* `Binary64.shortest?` — the digits and the place of the point;
* `Binary64.text` — the number in positional notation, with a point.
-/

namespace GoDraft

/-- Digits behind the point of a number that is moved by a number of places. -/
structure ShortDecimal where
  digits : Text
  /-- The number of digits before the point; not above zero, the zeros behind it. -/
  point : Int
  deriving DecidableEq, Repr

namespace Binary64

/-- A fraction times a power of ten, as its two parts. -/
def scaled (n d : Nat) (power : Int) : Nat × Nat :=
  if 0 ≤ power then (n * Nat.pow 10 power.toNat, d) else (n, d * Nat.pow 10 (-power).toNat)

/-- The numbers of digits before the point that a number of double precision can have. -/
def points : List Int := (List.range 640).map fun (i : Nat) => (i : Int) - 325

/-- The number of digits before the point of a fraction. -/
def pointOf (n d : Nat) : Int :=
  (points.find? fun k => let (n, d) := scaled n d (-k); n < d).getD 0

/-- The best text of `count` digits that reads back as a number. -/
def ofCount? (x : Binary64) (count : Nat) : Option ShortDecimal :=
  let unit := Nat.pow 2 x.shift
  let below := if x.significand = Nat.pow 2 52 ∧ 0 < x.shift then unit else 2 * unit
  let value := 4 * x.significand * unit
  let ones := 4 * unitsInOne
  let point := pointOf value ones
  let (n, d) := scaled value ones (count - point)
  let (low, _) := scaled (value - below) ones (count - point)
  let (high, _) := scaled (value + 2 * unit) ones (count - point)
  let reads (t : Nat) : Bool :=
    if x.significand % 2 = 0 then low ≤ t * d ∧ t * d ≤ high else low < t * d ∧ t * d < high
  let lower := n / d
  let upper := lower + 1
  let best? : Option Nat :=
    if reads lower && (!reads upper || 2 * (n % d) < d) then some lower
    else if reads upper then some upper
    else none
  best?.map fun t =>
    let digits := decimalText t
    { digits := (digits.reverse.dropWhile (· == '0')).reverse
      point := point + (digits.length - count) }

/-- The shortest decimal that reads back as a number other than zero. -/
def shortest? (x : Binary64) : Option ShortDecimal :=
  (List.range 17).findSome? fun i => x.ofCount? (i + 1)

/-- A number in positional notation, with at least one digit on each side of the point. -/
def text (x : Binary64) : Text :=
  match if x.significand = 0 then none else x.shortest? with
  | none => "0.0"
  | some s =>
    let zeros (n : Int) : Text := List.replicate n.toNat '0'
    if s.point ≤ 0 then "0." ++ zeros (-s.point) ++ s.digits
    else
      let whole := s.digits.take s.point.toNat ++ zeros (s.point - s.digits.length)
      let fraction := s.digits.drop s.point.toNat
      whole ++ "." ++ (if fraction.isEmpty then ['0'] else fraction)

end Binary64

end GoDraft
