import GoDraft.Pattern.Search

/-!
# GoDraft — replacement templates

A template is text with places for the groups of a match. A rule replaces every match of its pattern
by its template, filled in.

Templates can also be read from text, where a dollar sign introduces a group: `$2` or, in braces,
any name; `$$` stands for the sign itself. A name that is no number, or the number of a group that
the match lacks, stands for nothing. A dollar sign that no name follows is text.
-/

namespace GoDraft

/-- A part of a template. -/
inductive Piece where
  | text (t : Text)
  | group (index : Nat)

instance : Coe String Piece := ⟨fun s => .text s.toList⟩

/-- Text with places for groups. -/
abbrev Template := List Piece

namespace Template

/-- The template with the groups of a match filled in. -/
def fill (tmpl : Template) (m : Match) : Text :=
  tmpl.flatMap fun
    | .text t => t
    | .group index => m.group index

/-! ## Reading templates -/

/-- Whether a character can stand in a name without braces. -/
def isReferenceChar (c : Char) : Bool := c.isAlphanum || c == '_'

/-- The number that a name spells in decimal, after a plus sign or without one. -/
def numberOf? (name : Text) : Option Nat :=
  let digits := if name.head? = some '+' then name.tail else name
  if digits.isEmpty || !digits.all Char.isDigit then none
  else some (digits.foldl (fun n c => 10 * n + (c.toNat - '0'.toNat)) 0)

/-- What a name stands for. -/
def ofName (name : Text) : Piece :=
  match numberOf? name with
  | some index => .group index
  | none => .text []

/-- What a dollar sign and the text after it stand for, and how many characters of that text it
takes. -/
def reference (after : Text) : Piece × Nat :=
  match after with
  | '$' :: _ => (.text ['$'], 1)
  | '{' :: rest =>
    let name := rest.takeWhile (· != '}')
    if name.length < rest.length then (ofName name, name.length + 2) else (.text ['$'], 0)
  | _ =>
    let name := after.takeWhile isReferenceChar
    if name.isEmpty then (.text ['$'], 0) else (ofName name, name.length)

/-- The template that a text spells, after its next `skip` characters. -/
def ofTextFrom (skip : Nat) : Text → Template
  | [] => []
  | c :: rest =>
    match skip with
    | n + 1 => ofTextFrom n rest
    | 0 =>
      if c = '$' then
        let (piece, taken) := reference rest
        piece :: ofTextFrom taken rest
      else .text [c] :: ofTextFrom 0 rest

/-- The template that a text spells. -/
def ofText (t : Text) : Template := ofTextFrom 0 t

end Template

/-! ## Rules -/

/-- A pattern and what its matches become. -/
structure Rule where
  pattern : Pattern
  template : Template

namespace Rule

/-- A text with every match of the rule replaced. -/
def apply (r : Rule) (t : Text) : Text := r.pattern.replaceAll r.template.fill t

/-- Rules one after another; each sees what the ones before it have made. -/
def applyAll (rules : List Rule) (t : Text) : Text := rules.foldl (fun t r => r.apply t) t

end Rule

end GoDraft
