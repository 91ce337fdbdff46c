import GoDraft.Go.FieldName
import GoDraft.Go.TypeName
import GoDraft.Java.Declaration
import GoDraft.Settings

/-!
# GoDraft — the struct and the constructor

The Go type of a class and the function that makes its values. Both list the fields in the order in
which they are declared.
-/

namespace GoDraft

/-- One step of indentation inside a function. -/
def indent : Text := "    "

/-- The type of a receiver and of the constructor's result. -/
def classRef (settings : Settings) (c : ClassDecl) : Text :=
  if settings.pointerReceivers then "*" ++ c.name else c.name

/-- A comment before a declaration, where comments are wanted. -/
def remark (settings : Settings) (t : Text) : Text :=
  if settings.keepComments then "// " ++ t ++ "\n" else []

/-- The line of a field in the struct. -/
def structLine (settings : Settings) (f : Field) : Text :=
  indent ++ fieldName settings.exportFields f.name ++ " " ++ goType f.typeName ++ " // was "
    ++ f.typeName ++ "\n"

/-- The struct of a class. -/
def structDecl (settings : Settings) (c : ClassDecl) : Text :=
  remark settings (c.name ++ " represents the equivalent of Java class " ++ c.name)
    ++ "type " ++ c.name ++ " struct \x7b\n"
    ++ c.fields.flatMap (structLine settings)
    ++ "\x7d"

/-- A parameter in a Go signature. -/
def goParam (name typeName : Text) : Text := name ++ " " ++ goType typeName

/-- The line of a field in the constructor. -/
def constructorLine (settings : Settings) (f : Field) : Text :=
  indent ++ indent ++ fieldName settings.exportFields f.name ++ ": " ++ f.name ++ ",\n"

/-- The sign that takes the address of a new value, where values are kept by pointers. -/
def addressSign (settings : Settings) : Text := if settings.pointerReceivers then "&" else ""

/-- The constructor of a class, which takes a value for every field. -/
def constructorDecl (settings : Settings) (c : ClassDecl) : Text :=
  remark settings ("New" ++ c.name ++ " creates a new " ++ c.name ++ " instance")
    ++ "func New" ++ c.name
    ++ "(" ++ Text.join ", " (c.fields.map fun f => goParam f.name f.typeName) ++ ") "
    ++ classRef settings c ++ " \x7b\n"
    ++ indent ++ "return " ++ addressSign settings ++ c.name ++ "\x7b\n"
    ++ c.fields.flatMap (constructorLine settings)
    ++ indent ++ "\x7d\n"
    ++ "\x7d"

/-- The struct and the constructor of a class that has fields. -/
def classDecls (settings : Settings) (c : ClassDecl) : Option (List Text) :=
  if c.hasFields then some [structDecl settings c, constructorDecl settings c] else none

end GoDraft
