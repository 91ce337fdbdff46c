import GoDraft.Pattern.Basic

/-!
# GoDraft — searching and replacing

A search goes through the places of a text from left to right. Matches do not overlap: after one, the
search goes on at its end, with the text before it still in view for word edges and line starts. A
match of no text is passed over.

* `Pattern.find?` — the first match from a place on;
* `Pattern.findAll` — all matches;
* `Pattern.replaceAll` — a text with every match replaced.
-/

namespace GoDraft.Pattern

/-- The first match from a place on, the place given by its three parts. -/
def findFrom? (p : Pattern) (before : Option Char) (offset : Nat) : Text → Option Match
  | [] => p.matchAt? ⟨before, offset, []⟩
  | c :: rest =>
    match p.matchAt? ⟨before, offset, c :: rest⟩ with
    | some m => some m
    | none => p.findFrom? (some c) (offset + c.utf8Size) rest

/-- The first match in a text. -/
def find? (p : Pattern) (t : Text) : Option Match := p.findFrom? none 0 t

/-- The matches from a place on, after the next `skip` characters. -/
def findAllFrom (p : Pattern) (before : Option Char) (offset : Nat) (skip : Nat) :
    Text → List Match
  | [] => []
  | c :: rest =>
    let go (n : Nat) := p.findAllFrom (some c) (offset + c.utf8Size) n rest
    match skip with
    | n + 1 => go n
    | 0 =>
      match p.matchAt? ⟨before, offset, c :: rest⟩ with
      | none => go 0
      | some m =>
        match m.span.length with
        | 0 => go 0
        | n + 1 => m :: go n

/-- All matches in a text. -/
def findAll (p : Pattern) (t : Text) : List Match := p.findAllFrom none 0 0 t

/-- The text from a place on with every match replaced by what `f` makes of it, after the next
`skip` characters, which are left out. -/
def replaceFrom (p : Pattern) (f : Match → Text) (before : Option Char) (offset : Nat)
    (skip : Nat) : Text → Text
  | [] => []
  | c :: rest =>
    let go (n : Nat) := p.replaceFrom f (some c) (offset + c.utf8Size) n rest
    match skip with
    | n + 1 => go n
    | 0 =>
      match p.matchAt? ⟨before, offset, c :: rest⟩ with
      | none => c :: go 0
      | some m =>
        match m.span.length with
        | 0 => c :: go 0
        | n + 1 => f m ++ go n

/-- A text with every match replaced by what `f` makes of it. -/
def replaceAll (p : Pattern) (f : Match → Text) (t : Text) : Text := p.replaceFrom f none 0 0 t

end GoDraft.Pattern
