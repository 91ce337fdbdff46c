import GoDraft.Decimal.Shortest
import GoDraft.Text.Quoted
import GoDraft.Yaml.Event

/-!
# GoDraft — what a YAML scalar says

A plain scalar is read as nothing, a truth value, a number or a text, by its form; any other scalar is
a text. A tag can ask for one of them.

* `Content.ofPlain` — what a plain scalar says;
* `Content.ofScalar` — what any scalar says;
* `Content.text` — how it is named in a message.
-/

namespace GoDraft.Yaml

/-- How large an integer is: whether 64 bits hold it, or 128 without or with a sign. -/
inductive Width where
  | ordinary
  | wide
  | wideSigned
  deriving DecidableEq, Repr

/-- What a scalar says. A number with a point is kept as its decimal text. -/
inductive Content where
  | nothing
  | truth (value : Bool)
  | integer (value : Int) (width : Width)
  | real (decimal : Text)
  | words (value : Text)
  deriving DecidableEq, Repr

/-- An integer in decimal. -/
def intText (n : Int) : Text :=
  if n < 0 then '-' :: decimalText n.natAbs else decimalText n.natAbs

namespace Content

/-- How a content is named in a message. -/
def text : Content → Text
  | .nothing => "unit value"
  | .truth b => "boolean `" ++ boolText b ++ "`"
  | .integer n width =>
    let suffix : Text := match width with
      | .ordinary => []
      | .wide => " as u128"
      | .wideSigned => " as i128"
    "integer `" ++ intText n ++ "`" ++ suffix
  | .real d => "floating point `" ++ d ++ "`"
  | .words t => "string " ++ t.quoted

/-- The truth value that a scalar spells. -/
def truth? (t : Text) : Option Bool :=
  if [("true" : Text), "True", "TRUE"].elem t then some true
  else if [("false" : Text), "False", "FALSE"].elem t then some false
  else none

/-- Whether a scalar spells nothing. -/
def isNothing (t : Text) : Bool := [("null" : Text), "Null", "NULL", "~"].elem t

/-- Whether a scalar has digits only, the first a zero of several. Such a scalar is no number. -/
def hasLeadingZero (t : Text) : Bool :=
  let body := match t with
    | '-' :: rest => rest
    | '+' :: rest => rest
    | _ => t
  match body with
  | '0' :: c :: rest => (c :: rest).all Char.isDigit
  | _ => false

/-- The natural number behind a sign, in decimal or, with a mark, in another base. -/
def magnitude? (t : Text) : Option Nat :=
  match t with
  | '0' :: 'x' :: digits => Decimal.digitsValue? 16 digits
  | '0' :: 'o' :: digits => Decimal.digitsValue? 8 digits
  | '0' :: 'b' :: digits => Decimal.digitsValue? 2 digits
  | _ => if hasLeadingZero t then none else Decimal.digitsValue? 10 t

/-- The integer that a scalar spells, if at most 128 bits hold it. -/
def integer? (t : Text) : Option Content := do
  let (negative, body) := Decimal.splitSign t
  let n ← magnitude? body
  if negative then
    if n ≤ Nat.pow 2 63 then return .integer (-n) .ordinary
    else if n ≤ Nat.pow 2 127 then return .integer (-n) .wideSigned
    else none
  else if n < Nat.pow 2 64 then return .integer n .ordinary
  else if n < Nat.pow 2 128 then return .integer n .wide
  else none

/-- The number with a point that a scalar spells. -/
def real? (t : Text) : Option Content :=
  let (signed, body) : Bool × Text := match t with
    | '+' :: rest => (true, rest)
    | _ => (false, t)
  if [(".inf" : Text), ".Inf", ".INF"].elem body then some (.real "inf")
  else if [("-.inf" : Text), "-.Inf", "-.INF"].elem t then some (.real "-inf")
  else if [(".nan" : Text), ".NaN", ".NAN"].elem t then some (.real "NaN")
  else if signed && (body.head? == some '+' || body.head? == some '-') then none
  else do
    let d ← Decimal.ofText? body
    let x ← d.toBinary64?
    return .real ((if d.negative then ['-'] else []) ++ x.text)

/-- What a plain scalar says. -/
def ofPlain (t : Text) : Content :=
  if t.isEmpty || isNothing t then .nothing
  else
    match truth? t with
    | some b => .truth b
    | none =>
      ((integer? t).or (if hasLeadingZero t then none else real? t)).getD (.words t)

/-- The start of the tags that ask for a kind of content. -/
def knownTag (name : Text) : Text := "tag:yaml.org,2002:" ++ name

/-- What a scalar says; if its tag asks for something else, what it asks for is the error. -/
def ofScalar (tag? : Option Text) (value : Text) (style : Style) : Except Text Content :=
  match tag? with
  | none => .ok (if style = .plain then ofPlain value else .words value)
  | some tag =>
    let asked (content? : Option Content) (what : Text) : Except Text Content :=
      match content? with
      | some content => .ok content
      | none => .error what
    if tag = knownTag "bool" then asked ((truth? value).map .truth) "a boolean"
    else if tag = knownTag "int" then asked (integer? value) "an integer"
    else if tag = knownTag "float" then asked (real? value) "a float"
    else if tag = knownTag "null" then
      asked (if isNothing value then some .nothing else none) "null"
    else if tag.head? = some '!' ∧ style = .plain then .ok (ofPlain value)
    else .ok (.words value)

end Content

end GoDraft.Yaml
