import GoDraft.Text.Blank

/-!
# GoDraft — layout by braces

Indentation computed from the braces at the ends of lines alone. A line that begins with a closing
brace is one level further out, and lines after one that ends with an opening brace are one level
further in. What a line was indented by before does not matter, so laying out twice changes nothing
more.
-/

namespace GoDraft

/-- One level of indentation. -/
def layoutUnit : Text := "\t"

/-- Lines without outer blanks, laid out from a level on. -/
def layoutFrom (level : Nat) : List Text → Text
  | [] => []
  | line :: rest =>
    if line.isEmpty then "\n" ++ layoutFrom level rest
    else
      let level := if line.head? = some '}' then level - 1 else level
      (List.replicate level layoutUnit).flatten ++ line ++ "\n"
        ++ layoutFrom (if line.getLast? = some '{' then level + 1 else level) rest

/-- A text laid out by its braces. -/
def reindent (t : Text) : Text := layoutFrom 0 (t.lines.map Text.trim)

end GoDraft
