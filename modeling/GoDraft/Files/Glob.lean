import GoDraft.Pattern.Basic
import GoDraft.Text.Quoted

/-!
# GoDraft — glob patterns

Globs select paths. `*` stands for any bytes and `?` for one byte, slashes included; a component `**`
stands for any folders; `[a-z]` and `[!a-z]` are classes; braces hold alternatives, which may be
nested; a backslash takes the next character as it is. A glob is read into a `Pattern` over the bytes
of a path and has to fit the path as a whole.

* `Glob.ofText` — reading a glob, with its errors;
* `Glob.fits` — whether it selects a path.
-/

namespace GoDraft

/-! ## Errors -/

/-- Why a text is no glob. -/
inductive GlobError where
  | unclosedClass
  | badRange (first last : Char)
  | unopenedGroup
  | unclosedGroup
  | danglingEscape
  deriving DecidableEq, Repr

/-- The text of an error. -/
def GlobError.message : GlobError → Text
  | .unclosedClass => "unclosed character class; missing ']'"
  | .badRange first last => "invalid range; '" ++ [first] ++ "' > '" ++ [last] ++ "'"
  | .unopenedGroup =>
    "unopened alternate group; missing '\x7b' (maybe escape '\x7d' with '[\x7d]'?)"
  | .unclosedGroup =>
    "unclosed alternate group; missing '\x7d' (maybe escape '\x7b' with '[\x7b]'?)"
  | .danglingEscape => "dangling '\\'"

/-! ## Patterns over bytes -/

/-- A text by its bytes, each as the character with its number. -/
def Text.asBytes (t : Text) : Text := t.bytes.map fun b => Char.ofNat b.toNat

namespace Glob

/-- Any one byte. -/
def anyByte : Pattern := .one fun _ => true

/-- Any bytes. -/
def anyBytes : Pattern := .many anyByte

/-- The bytes of a character. -/
def literal (c : Char) : Pattern := .text (Text.asBytes [c])

/-- A slash. -/
def slash : Pattern := .char '/'

/-- Any folders at the start, each with its slash. -/
def leadingFolders : Pattern := .alt (.optional slash) (anyBytes ++ slash)

/-- A slash and anything behind it. -/
def trailingFolders : Pattern := slash ++ anyBytes

/-- A slash, or two with any folders between them. -/
def innerFolders : Pattern := .alt slash (slash ++ anyBytes ++ slash)

/-- The byte ranges of a range of characters, first and last written out as bytes: all their bytes
stand for themselves, but the last of the first character and the first of the last one bound a
range. -/
def byteRanges (range : Char × Char) : List (Char × Char) :=
  let first := Text.asBytes [range.1]
  let last := Text.asBytes [range.2]
  if range.1 = range.2 then first.map fun b => (b, b)
  else
    match first.getLast?, last.head? with
    | some a, some b =>
      first.dropLast.map (fun c => (c, c)) ++ [(a, b)] ++ last.tail.map fun c => (c, c)
    | _, _ => []

/-- One byte that is in some ranges, or in none of them. -/
def classOf (negated : Bool) (ranges : List (Char × Char)) : Pattern :=
  let bytes := ranges.flatMap byteRanges
  .one fun c => negated != bytes.any fun r => r.1 ≤ c && c ≤ r.2

/-! ## Reading -/

/-- A part of a glob. The folder wildcards are told apart because one swallows the next; the pattern
of any other part is `none` where it stands for nothing. -/
inductive Part where
  | leading
  | trailing
  | other (p : Option Pattern)

/-- The pattern of a part. -/
def Part.pattern? : Part → Option Pattern
  | .leading => some leadingFolders
  | .trailing => some trailingFolders
  | .other p => p

/-- Parts one after another. -/
def sequence (parts : List Part) : Option Pattern :=
  match parts.filterMap Part.pattern? with
  | [] => none
  | p :: ps => some (ps.foldl .seq p)

/-- Alternatives; those that stand for nothing are left out. -/
def alternatives (branches : List (List Part)) : Option Pattern :=
  match branches.filterMap sequence with
  | [] => none
  | p :: ps => some (ps.foldl .alt p)

/-- What is being read. -/
inductive Mode where
  /-- Parts of the glob. -/
  | plain
  /-- The character after a backslash. -/
  | escape
  /-- A class right behind its bracket. -/
  | classStart
  /-- A class: its ranges so far, last one first, whether nothing has been read of it yet, and
  whether the last range is open at its end. -/
  | inClass (negated : Bool) (ranges : List (Char × Char)) (isFirst inRange : Bool)

/-- A glob while it is read. -/
structure Reading where
  /-- The branches being read, innermost first, each with its last part first. -/
  branches : List (List Part) := [[]]
  /-- For each open group, the number of branches outside it. -/
  groups : List Nat := []
  /-- The character before. -/
  before : Option Char := none
  mode : Mode := .plain

namespace Reading

/-- Adds a part to the innermost branch. -/
def push (r : Reading) (part : Part) : Reading :=
  match r.branches with
  | [] => { r with branches := [[part]] }
  | branch :: rest => { r with branches := (part :: branch) :: rest }

/-- Adds a part that is no folder wildcard. -/
def pushPattern (r : Reading) (p : Pattern) : Reading := r.push (.other (some p))

/-- Whether the innermost branch has parts. -/
def hasParts (r : Reading) : Bool := r.branches.head?.any fun branch => !branch.isEmpty

/-- Puts a folder wildcard in place of the last part, which is the slash before it, unless that is a
folder wildcard itself. -/
def swallow (r : Reading) (part : Part) : Reading :=
  match r.branches with
  | (.leading :: _) :: _ => r
  | (.trailing :: _) :: _ => r
  | (_ :: branch) :: rest => { r with branches := (part :: branch) :: rest }
  | _ => r.push part

/-- Two stars, seen as two plain ones. -/
def plainStars (r : Reading) : Reading := (r.pushPattern anyBytes).pushPattern anyBytes

/-- Takes two stars that `rest` follows; the answer tells how many characters behind the first star
are taken. -/
def twoStars (r : Reading) (rest : Text) : Reading × Nat :=
  let next := rest.head?
  if !r.hasParts then
    if next.all (· == '/') then (r.push .leading, 2) else (r.plainStars, 1)
  else if r.before != some '/'
      && (r.branches.length ≤ 1 || (r.before != some ',' && r.before != some '{')) then
    (r.plainStars, 1)
  else
    match next with
    | none => (r.swallow .trailing, 1)
    | some c =>
      if (c = ',' ∨ c = '}') ∧ 2 ≤ r.branches.length then (r.swallow .trailing, 1)
      else if c = '/' then (r.swallow (.other (some innerFolders)), 2)
      else (r.plainStars, 1)

/-- Closes the innermost group. -/
def closeGroup (r : Reading) : Except GlobError Reading :=
  match r.groups with
  | [] => .error .unopenedGroup
  | outside :: groups =>
    let count := r.branches.length - outside
    let branches := ((r.branches.take count).map List.reverse).reverse
    .ok ({ r with branches := r.branches.drop count, groups }.push (.other (alternatives branches)))

/-- Takes a character of a class. -/
def inClass (r : Reading) (negated : Bool) (ranges : List (Char × Char)) (isFirst inRange : Bool)
    (c : Char) : Except GlobError Reading :=
  let go (ranges : List (Char × Char)) (inRange : Bool) : Reading :=
    { r with mode := .inClass negated ranges false inRange }
  let closeRange : Except GlobError Reading :=
    match ranges with
    | (first, _) :: rest =>
      if c < first then .error (.badRange first c) else .ok (go ((first, c) :: rest) false)
    | [] => .ok (go [(c, c)] false)
  if c = ']' ∧ !isFirst then
    let ranges := if inRange then ('-', '-') :: ranges else ranges
    .ok { r.pushPattern (classOf negated ranges.reverse) with mode := .plain }
  else if c = '-' ∧ !isFirst ∧ !inRange then .ok (go ranges true)
  else if inRange then closeRange
  else .ok (go ((c, c) :: ranges) false)

/-- Takes a character that `rest` follows; the answer tells how many characters of `rest` are taken
with it. -/
def step (r : Reading) (c : Char) (rest : Text) : Except GlobError (Reading × Nat) :=
  match r.mode with
  | .escape => .ok ({ r.pushPattern (literal c) with mode := .plain }, 0)
  | .classStart =>
    if c = '!' ∨ c = '^' then .ok ({ r with mode := .inClass true [] true false }, 0)
    else (·, 0) <$> r.inClass false [] true false c
  | .inClass negated ranges isFirst inRange =>
    (·, 0) <$> r.inClass negated ranges isFirst inRange c
  | .plain =>
    match c with
    | '?' => .ok (r.pushPattern anyByte, 0)
    | '*' =>
      if rest.head? = some '*' then .ok (r.twoStars rest.tail) else .ok (r.pushPattern anyBytes, 0)
    | '[' => .ok ({ r with mode := .classStart }, 0)
    | '{' =>
      .ok ({ r with groups := r.branches.length :: r.groups, branches := [] :: r.branches }, 0)
    | '}' => (·, 0) <$> r.closeGroup
    | ',' =>
      if r.groups.isEmpty then .ok (r.pushPattern (literal c), 0)
      else .ok ({ r with branches := [] :: r.branches }, 0)
    | '\\' => .ok ({ r with mode := .escape }, 0)
    | c => .ok (r.pushPattern (literal c), 0)

/-- Reads a glob on, after its next `skip` characters. -/
def run (r : Reading) (skip : Nat) : Text → Except GlobError Reading
  | [] => .ok r
  | c :: rest =>
    match skip with
    | n + 1 => { r with before := some c }.run n rest
    | 0 =>
      match r.step c rest with
      | .error e => .error e
      | .ok (r, taken) => { r with before := some c }.run taken rest

/-- The pattern of a glob that has been read to its end. -/
def finish (r : Reading) : Except GlobError Pattern :=
  match r.mode with
  | .escape => .error .danglingEscape
  | .classStart | .inClass .. => .error .unclosedClass
  | .plain =>
    match r.branches with
    | [[.leading]] => .ok anyBytes
    | [branch] => .ok ((sequence branch.reverse).getD .empty)
    | _ => .error .unclosedGroup

end Reading

end Glob

/-- A glob, read. -/
structure Glob where
  pattern : Pattern

namespace Glob

/-- The glob that a text spells. -/
def ofText (t : Text) : Except GlobError Glob := do
  let r ← ({} : Reading).run 0 t
  return ⟨← r.finish⟩

/-- Whether a glob fits a path as a whole. -/
def fits (g : Glob) (path : Text) : Bool :=
  (g.pattern.ways ⟨.start path.asBytes, []⟩).any fun w => w.cursor.rest.isEmpty

/-- The globs that some texts spell; the first that spells none tells why. -/
def ofTexts (ts : List Text) : Except Text (List Glob) :=
  ts.mapM fun t =>
    match ofText t with
    | .ok g => .ok g
    | .error e =>
      .error ("invalid exclude pattern " ++ t.quoted ++ ": error parsing glob '" ++ t ++ "': "
        ++ e.message)

end Glob

end GoDraft
