/-!
# GoDraft — settings

The choices that shape the Go text. They are fixed once for a run.
-/

namespace GoDraft

/-- How Go is written. -/
structure Settings where
  /-- Keep the comments of bodies, and explain what is generated. -/
  keepComments : Bool := true
  /-- Give methods pointer receivers, and let the constructor return a pointer. -/
  pointerReceivers : Bool := true
  /-- Begin field names with an upper-case letter. -/
  exportFields : Bool := true
  /-- Recast idioms of the Java standard library. -/
  libraryCalls : Bool := false
  deriving DecidableEq, Repr

end GoDraft
