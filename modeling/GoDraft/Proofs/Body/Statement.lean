import GoDraft.Proofs.Body.Token

/-!
# GoDraft — a language of statements

Recasting works on text. To say what it makes of statements, the statements have to be there first:
this module gives the statements that are recast, their Java form and the Go form they should get,
line by line and by recursion on the statements alone.

* `Condition`, `Simple`, `Header` — the parts of statements;
* `Statements` — lists of statements, with room for a layout;
* `Statements.java`, `Statements.go` — the two forms, as lines.
-/

namespace GoDraft

/-! ## Parts of statements -/

/-- Comparisons of two operands. -/
inductive Comparison where
  | less
  | greater
  | atMost
  | atLeast
  | equal
  | unequal
  deriving DecidableEq, Repr

/-- The sign of a comparison. -/
def Comparison.text : Comparison → Text
  | less => "<"
  | greater => ">"
  | atMost => "<="
  | atLeast => ">="
  | equal => "=="
  | unequal => "!="

/-- A condition: two operands compared. -/
structure Condition where
  left : Name
  comparison : Comparison
  right : Name

/-- The text of a condition. -/
def Condition.text (c : Condition) : Text :=
  c.left.text ++ " " ++ c.comparison.text ++ " " ++ c.right.text

/-- Statements without a block. -/
inductive Simple where
  | declare (type name value : Name)
  | assign (name value : Name)
  | increment (name : Name)
  | print (value : Name)
  | giveBack (value : Name)
  | construct (type name made : Name) (arguments : List Name)

/-- The text of a list of arguments. -/
def argumentText (arguments : List Name) : Text := Text.join ", " (arguments.map Name.text)

/-- The Java text of a statement without a block. -/
def Simple.java : Simple → Text
  | declare type name value => type.text ++ " " ++ name.text ++ " = " ++ value.text ++ ";"
  | assign name value => name.text ++ " = " ++ value.text ++ ";"
  | increment name => name.text ++ "++;"
  | print value => "System.out.println(" ++ value.text ++ ");"
  | giveBack value => "return " ++ value.text ++ ";"
  | construct type name made arguments =>
    type.text ++ " " ++ name.text ++ " = new " ++ made.text ++ "(" ++ argumentText arguments ++ ");"

/-- The Go text of a statement without a block. -/
def Simple.go : Simple → Text
  | declare _ name value => name.text ++ " := " ++ value.text
  | assign name value => name.text ++ " = " ++ value.text
  | increment name => name.text ++ "++"
  | print value => "fmt.Println(" ++ value.text ++ ")"
  | giveBack value => "return " ++ value.text
  | construct _ name made arguments =>
    name.text ++ " := &" ++ made.text ++ "\x7b" ++ argumentText arguments ++ "\x7d"

/-- Headers of blocks that end with their brace. -/
inductive Header where
  | branch (c : Condition)
  | loop (c : Condition)
  | count (type name start : Name) (c : Condition) (next : Name)

/-- The Java text of a header. -/
def Header.java : Header → Text
  | branch c => "if (" ++ c.text ++ ") \x7b"
  | loop c => "while (" ++ c.text ++ ") \x7b"
  | count type name start c next =>
    "for (" ++ type.text ++ " " ++ name.text ++ " = " ++ start.text ++ "; " ++ c.text ++ "; "
      ++ next.text ++ "++) \x7b"

/-- The Go text of a header. -/
def Header.go : Header → Text
  | branch c => "if " ++ c.text ++ " \x7b"
  | loop c => "for " ++ c.text ++ " \x7b"
  | count _ name start c next =>
    "for " ++ name.text ++ " := " ++ start.text ++ "; " ++ c.text ++ "; " ++ next.text ++ "++ \x7b"

/-! ## Lists of statements -/

/-- A list of statements: each constructor but the first is a statement and the list behind it. A
place for layout stands inside the start of every block and behind every statement. -/
inductive Statements (γ : Type) where
  | done
  | simple (s : Simple) (gap : γ) (next : Statements γ)
  | block (h : Header) (inner : γ) (body : Statements γ) (gap : γ) (next : Statements γ)
  | branches (c : Condition) (inner : γ) (body : Statements γ) (inner' : γ) (other : Statements γ)
      (gap : γ) (next : Statements γ)
  | repeated (inner : γ) (body : Statements γ) (c : Condition) (gap : γ) (next : Statements γ)

namespace Statements

variable {γ : Type}

/-- The Java lines of a list of statements. -/
def java : Statements γ → List Text
  | done => []
  | simple s _ next => s.java :: next.java
  | block h _ body _ next => h.java :: (body.java ++ ("\x7d" : Text) :: next.java)
  | branches c _ body _ other _ next =>
    (Header.branch c).java
      :: (body.java ++ ("\x7d else \x7b" : Text) :: (other.java ++ ("\x7d" : Text) :: next.java))
  | repeated _ body c _ next =>
    ("do \x7b" : Text) :: (body.java ++ ("\x7d while (" ++ c.text ++ ");") :: next.java)

/-- The Go lines of a list of statements. -/
def go : Statements γ → List Text
  | done => []
  | simple s _ next => s.go :: next.go
  | block h _ body _ next => h.go :: (body.go ++ ("\x7d" : Text) :: next.go)
  | branches c _ body _ other _ next =>
    (Header.branch c).go
      :: (body.go ++ ("\x7d else \x7b" : Text) :: (other.go ++ ("\x7d" : Text) :: next.go))
  | repeated _ body c _ next =>
    ("for \x7b" : Text)
      :: (body.go ++ ("if !(" ++ c.text ++ ") \x7b") :: ("break" : Text) :: ("\x7d" : Text)
        :: ("\x7d" : Text) :: next.go)

end Statements

end GoDraft
