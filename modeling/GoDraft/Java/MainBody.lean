import GoDraft.Java.Methods

/-!
# GoDraft — the body of `main`

The first text of the shape of a `main` header decides, wherever it stands.
-/

namespace GoDraft

open Pattern

/-- The header of `main`, up to the brace that opens its block. -/
def mainHeader : Pattern :=
  "public" ++ blanks1 ++ "static" ++ blanks1 ++ "void" ++ blanks1 ++ "main" ++ blanks ++ "("
    ++ blanks ++ "String" ++ blanks
    ++ (("[]" ++ blanks ++ word) ||| ("..." ++ blanks ++ word) ||| (word ++ blanks ++ "[]"))
    ++ blanks ++ ")" ++ blanks ++ optional throwsClause ++ "\x7b"

/-- The body of `main`, without the blanks at its ends. -/
def findMainBody (source : Text) : Except Fault (Option Text) :=
  match mainHeader.find? source with
  | none => .ok none
  | some m => do
    match ← blockEnd source m.brace false with
    | none => return none
    | some close => return some (← source.slice (m.brace + 1) close).trim

end GoDraft
