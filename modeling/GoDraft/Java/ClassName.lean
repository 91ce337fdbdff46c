import GoDraft.Pattern.Search
import GoDraft.Scan.Walker

/-!
# GoDraft — the name of the class

The class of a source text is the first public one whose declaration begins in code.
-/

namespace GoDraft

open Pattern

/-- The start of the declaration of a public class. -/
def classPattern : Pattern := "public" ++ blanks1 ++ "class" ++ blanks1 ++ group 1 word

/-- The name of the first public class outside comments and literals. -/
def findClassName (source : Text) : Option Text :=
  ((classPattern.findAll source).find? fun m => isCodeAt source m.start).map (·.group 1)

end GoDraft
