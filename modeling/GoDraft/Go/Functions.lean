import GoDraft.Body.Recast
import GoDraft.Go.Declarations

/-!
# GoDraft — functions

Methods become functions with a receiver, and `main` becomes `main`. The lines of a body lose their
own indentation and blank lines are dropped; every line is indented once.
-/

namespace GoDraft

/-- The name of the receiver in every method. -/
def receiver : Text := "s"

/-- The lines of a body, each indented once. -/
def bodyLines (body : Text) : Text :=
  ((body.lines.map Text.trim).filter fun line => !line.isEmpty).flatMap
    fun line => indent ++ line ++ "\n"

/-- A body with its comments only where they are wanted. -/
def preparedBody (settings : Settings) (body : Text) : Text :=
  if settings.keepComments then body else stripComments body

/-- The recaster for methods of a class. -/
def methodRecaster (settings : Settings) (c : ClassDecl) : Recaster :=
  ({ libraryCalls := settings.libraryCalls } : Recaster).withReceiver receiver
    settings.exportFields (c.fields.map Field.name)

/-- The signature of a method. -/
def methodSignature (settings : Settings) (c : ClassDecl) (m : Method) : Text :=
  "func (" ++ receiver ++ " " ++ classRef settings c ++ ") " ++ m.name
    ++ "(" ++ Text.join ", " (m.params.map fun p => goParam p.name p.typeName) ++ ")"

/-- The result type of a method in its signature. -/
def resultType (m : Method) : Text :=
  let result := goType m.returnType
  if result.isEmpty then [] else " " ++ result

/-- A method of a class as a function with a receiver. -/
def methodDecl (settings : Settings) (c : ClassDecl) (m : Method) : Text :=
  remark settings (m.name ++ " is the Go equivalent of the Java method")
    ++ methodSignature settings c m
    ++ resultType m ++ " \x7b\n"
    ++ bodyLines ((methodRecaster settings c).recast (preparedBody settings m.body))
    ++ "\x7d"

/-- The function `main` for the body of the Java `main`. -/
def mainDecl (settings : Settings) (body : Text) : Text :=
  "func main() \x7b\n"
    ++ bodyLines (({ libraryCalls := settings.libraryCalls } : Recaster).recast
        (preparedBody settings body))
    ++ "\x7d"

/-- A line of the usage example. -/
def exampleLine (t : Text) : Text := indent ++ "// " ++ t ++ "\n"

/-- A function `main` with a usage example of a class in comments: a new value and a call of the
first method. -/
def usageExample (c : ClassDecl) : Text :=
  "func main() \x7b\n"
    ++ exampleLine ("Example of creating and using a " ++ c.name ++ " instance")
    ++ exampleLine "Uncomment and modify as needed"
    ++ exampleLine ("instance := New" ++ c.name
        ++ "(" ++ Text.join ", " (c.fields.map fun f => sampleValue f.typeName) ++ ")")
    ++ c.methods.head?.toList.flatMap (fun m => exampleLine ("instance." ++ m.name ++ "()"))
    ++ "\x7d"

end GoDraft
