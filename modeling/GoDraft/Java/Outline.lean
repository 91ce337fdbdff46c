import GoDraft.Java.ClassName
import GoDraft.Java.Fields
import GoDraft.Java.MainBody

/-!
# GoDraft — the outline of a source text

The declarations of a source text, put together, with the records of how they were found.
-/

namespace GoDraft

/-- An outline and the records of its making. -/
structure OutlineReading where
  outline : Outline
  log : Log := []

/-- The outline of a source text. Without a class only the body of `main` is looked for. -/
def readOutline (source : Text) : Except Fault OutlineReading := do
  let main? ← findMainBody source
  match findClassName source with
  | none =>
    return {
      outline := { looseMain? := main? }
      log := [⟨.debug, "no class declaration found, main present: " ++ boolText main?.isSome⟩] }
  | some name =>
    let fieldFindings ← fieldFindings source
    let methodFindings ← methodFindings source name
    let fields := fieldFindings.filterMap FieldFinding.field?
    let methods := methodFindings.filterMap MethodFinding.method?
    let summary : Text :=
      "extracted class " ++ name ++ ": " ++ decimalText fields.length ++ " fields, "
        ++ decimalText methods.length ++ " methods, main present: " ++ boolText main?.isSome
    return {
      outline := { class? := some { name, fields, methods, main? } }
      log := fieldFindings.flatMap FieldFinding.log ++ methodFindings.flatMap MethodFinding.log
        ++ [⟨.debug, summary⟩] }

end GoDraft
