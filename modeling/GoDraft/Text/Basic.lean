/-!
# GoDraft — text

A text is a list of characters. Positions that are shown to the outside are byte offsets into its
UTF-8 form, so a cut at a byte offset can fail: it may lie past the end or inside a character.

* `Text.size`, `Text.bytes` — the UTF-8 form and its length;
* `Text.slice?` — the text between two byte offsets;
* `Text.pieces`, `Text.lines`, `Text.join` — cutting at a character and joining again;
* `Text.hasPart` — whether a text occurs inside another.
-/

namespace GoDraft

/-- A text, character by character. -/
abbrev Text := List Char

instance : Coe String Text := ⟨String.toList⟩

namespace Text

/-- What is said of every character of a text is decided by going through the text. -/
instance (priority := high) decidableForallMem (t : Text) (p : Char → Prop) [DecidablePred p] :
    Decidable (∀ c ∈ t, p c) :=
  List.decidableBAll p t

/-- The text as a string. -/
def toString (t : Text) : String := String.ofList t

/-! ## Bytes -/

/-- The number of bytes of the UTF-8 form. -/
def size (t : Text) : Nat := t.foldr (fun c n => c.utf8Size + n) 0

/-- The UTF-8 form. -/
def bytes (t : Text) : List UInt8 := t.flatMap String.utf8EncodeChar

/-- What is left after `n` bytes, when they end between two characters. -/
def dropBytes? : Nat → Text → Option Text
  | 0, t => some t
  | _ + 1, [] => none
  | n + 1, c :: t => if c.utf8Size ≤ n + 1 then dropBytes? (n + 1 - c.utf8Size) t else none

/-- The first `n` bytes, when they end between two characters. -/
def takeBytes? : Nat → Text → Option Text
  | 0, _ => some []
  | _ + 1, [] => none
  | n + 1, c :: t =>
    if c.utf8Size ≤ n + 1 then (takeBytes? (n + 1 - c.utf8Size) t).map (c :: ·) else none

/-- Whether a byte offset lies between two characters, or at an end. -/
def isBoundary (t : Text) (offset : Nat) : Bool := (t.dropBytes? offset).isSome

/-- The text between two byte offsets. There is none unless the offsets are in order, in range and
between characters. -/
def slice? (t : Text) (start stop : Nat) : Option Text :=
  if start ≤ stop then (t.dropBytes? start).bind (takeBytes? (stop - start)) else none

/-! ## Cutting and joining -/

/-- The pieces between the occurrences of a character; always at least one. -/
def pieces (sep : Char) : Text → List Text
  | [] => [[]]
  | c :: t =>
    if c = sep then [] :: pieces sep t
    else
      match pieces sep t with
      | [] => [[c]]
      | p :: ps => (c :: p) :: ps

/-- Texts one after another with a separator between them. -/
def join (sep : Text) : List Text → Text
  | [] => []
  | [t] => t
  | t :: ts => t ++ sep ++ join sep ts

/-- A text without one given character at its end. -/
def dropLastChar (c : Char) (t : Text) : Text :=
  if t.getLast? = some c then t.dropLast else t

/-- The lines of the pieces between line feeds: a carriage return before a line feed belongs to the
line's end, and an empty last piece is no line. -/
def linesOfPieces : List Text → List Text
  | [] => []
  | [t] => if t.isEmpty then [] else [t]
  | t :: ts => dropLastChar '\r' t :: linesOfPieces ts

/-- The lines of a text. -/
def lines (t : Text) : List Text := linesOfPieces (t.pieces '\n')

/-! ## Searching -/

/-- Whether a text begins with another. -/
def startsWith (t : Text) (start : Text) : Bool := start.isPrefixOf t

/-- Whether a text occurs inside another. -/
def hasPart : Text → Text → Bool
  | [], part => part.isEmpty
  | c :: t, part => part.isPrefixOf (c :: t) || hasPart t part

end Text

end GoDraft
