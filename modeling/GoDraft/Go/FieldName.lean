import GoDraft.Text.Uppercase

/-!
# GoDraft — names of struct fields

A Go field is visible outside its package when its name begins with an upper-case letter.
-/

namespace GoDraft

/-- The Go name of a Java field: with its first character in upper case where fields are to be
exported, else as it is. -/
def fieldName (exported : Bool) (name : Text) : Text :=
  if exported then
    match name with
    | [] => []
    | c :: rest => uppercase c ++ rest
  else name

end GoDraft
