import GoDraft.Text.WordChar
import GoDraft.Text.Basic

/-!
# GoDraft — keywords in place

Whether a text begins with a keyword that stands alone, rather than as part of a longer name.
-/

namespace GoDraft

/-- Whether `t`, which follows the character `before`, begins with `word` as a name of its own. -/
def startsKeyword (before : Option Char) (t word : Text) : Bool :=
  t.startsWith word && !before.any isNameChar && !(t.drop word.length).head?.any isNameChar

end GoDraft
