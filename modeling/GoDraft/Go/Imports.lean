import GoDraft.Text.Basic

/-!
# GoDraft — imports

A Go package is imported when the Java source mentions what it stands in for. The source is searched
as plain text, comments and literals included.
-/

namespace GoDraft

/-- When a package is imported: the source mentions all of some texts and, unless there are none,
one of some others. -/
structure ImportTrigger where
  package : Text
  allOf : List Text
  oneOf : List Text

/-- Whether a source text calls for the package. -/
def ImportTrigger.fires (trigger : ImportTrigger) (source : Text) : Bool :=
  trigger.allOf.all source.hasPart
    && (trigger.oneOf.isEmpty || trigger.oneOf.any source.hasPart)

/-- The packages that can be imported, in the order of the import block. -/
def importTriggers : List ImportTrigger :=
  [⟨"fmt", ["System.out"], []⟩,
   ⟨"strings", ["String"], ["toLowerCase", "toUpperCase", "substring"]⟩,
   ⟨"strconv", [], ["Integer.parseInt", "Double.parseDouble"]⟩]

/-- The packages that a source text calls for. -/
def detectImports (source : Text) : List Text :=
  (importTriggers.filter (·.fires source)).map ImportTrigger.package

end GoDraft
