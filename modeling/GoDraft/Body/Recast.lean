import GoDraft.Body.Rules
import GoDraft.Body.StatementLines
import GoDraft.Body.Terminators
import GoDraft.Go.FieldName

/-!
# GoDraft — recasting a body

The statements of a Java body become Go statements in a fixed order of steps: one statement a line,
the rules, and last the terminators. Inside a method, fields reached through `this` become fields of
the receiver.
-/

namespace GoDraft

/-- How bodies are recast. -/
structure Recaster where
  /-- Whether idioms of the standard library are recast. -/
  libraryCalls : Bool := false
  /-- Rules for fields reached through `this`. -/
  fieldAccess : List Rule := []

/-- The rule that makes `this.name` a field of the receiver. -/
def fieldAccessRule (receiver : Text) (exported : Bool) (name : Text) : Rule :=
  ⟨.wordEdge ++ "this." ++ Pattern.text name ++ .wordEdge,
   .ofText (receiver ++ "." ++ fieldName exported name)⟩

namespace Recaster

/-- A recaster for methods with a receiver, given the names of the fields. -/
def withReceiver (r : Recaster) (receiver : Text) (exported : Bool) (names : List Text) :
    Recaster :=
  { r with fieldAccess := names.map (fieldAccessRule receiver exported) }

/-- The Go statements for a body. -/
def recast (r : Recaster) (body : Text) : Text :=
  let t := splitStatements body
  let t := if r.libraryCalls then Rule.applyAll libraryRules t else t
  let t := Rule.applyAll printRules t
  let t := Rule.applyAll concatRules t
  let t := recastDeclarations t
  let t := Rule.applyAll r.fieldAccess t
  let t := Rule.applyAll controlRules t
  let t := callRule.apply t
  let t := returnRule.apply t
  let t := Rule.applyAll constructionRules t
  stripTerminators t

end Recaster

end GoDraft
