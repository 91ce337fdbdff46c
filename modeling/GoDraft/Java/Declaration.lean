import GoDraft.Text.Basic

/-!
# GoDraft — declarations of a Java source text

What is kept of a source text: at most one class with its fields and methods, and the body of
`main`. Types and bodies stay as they are written.
-/

namespace GoDraft

/-- Who may use a member of a class. -/
inductive Access where
  | pub
  | priv
  | prot
  | unmarked
  deriving DecidableEq, Repr

namespace Access

/-- The word that marks an access, if it is marked. -/
def word? : Access → Option Text
  | .pub => some "public"
  | .priv => some "private"
  | .prot => some "protected"
  | .unmarked => none

/-- The access that a word marks; any other word, or none, leaves it unmarked. -/
def ofWord (word : Option Text) : Access :=
  if word = pub.word? then .pub
  else if word = priv.word? then .priv
  else if word = prot.word? then .prot
  else .unmarked

/-- Whether a word marks an access. -/
def isKeyword (word : Text) : Bool :=
  some word == pub.word? || some word == priv.word? || some word == prot.word?

end Access

/-- A field of a class. -/
structure Field where
  access : Access := .unmarked
  typeName : Text
  name : Text
  default? : Option Text := none
  deriving DecidableEq, Repr

/-- A parameter of a method. -/
structure Param where
  typeName : Text
  name : Text
  deriving DecidableEq, Repr

/-- A method of a class, other than `main`. -/
structure Method where
  access : Access := .unmarked
  returnType : Text
  name : Text
  params : List Param := []
  /-- The statements between the braces, as they are written. -/
  body : Text
  deriving DecidableEq, Repr

/-- A class, with its members in the order in which they are declared. -/
structure ClassDecl where
  name : Text
  fields : List Field := []
  methods : List Method := []
  main? : Option Text := none
  deriving DecidableEq, Repr

namespace ClassDecl

/-- Whether a class has a field. -/
def hasFields (c : ClassDecl) : Bool := !c.fields.isEmpty

/-- Whether a class has a method besides `main`. -/
def hasMethods (c : ClassDecl) : Bool := !c.methods.isEmpty

end ClassDecl

/-- What is kept of a source text. -/
structure Outline where
  class? : Option ClassDecl := none
  /-- The body of a `main` outside any known class. -/
  looseMain? : Option Text := none
  deriving DecidableEq, Repr

/-- The body of `main`, in the class if it has one. -/
def Outline.main? (o : Outline) : Option Text :=
  (o.class?.bind ClassDecl.main?).or o.looseMain?

end GoDraft
