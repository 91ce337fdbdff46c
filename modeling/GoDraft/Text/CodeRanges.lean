/-!
# GoDraft — sets of characters by code point

A property of characters is a table of code point ranges. Every property decides the first 128
characters without its table.
-/

namespace GoDraft

/-- Inclusive ranges of code points, in ascending order. -/
abbrev CodeRanges := List (Nat × Nat)

/-- Whether some range holds the character. -/
def CodeRanges.has (ranges : CodeRanges) (c : Char) : Bool :=
  ranges.any fun r => r.1 ≤ c.toNat && c.toNat ≤ r.2

end GoDraft
