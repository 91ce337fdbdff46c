import GoDraft.Files.Path

/-!
# GoDraft — outcomes

What became of each file of a run, and the counts over all of them.
-/

namespace GoDraft

/-- What became of a file. -/
inductive Status where
  | translated
  | skipped
  | failed
  deriving DecidableEq, Repr

/-- The word for a status. -/
def Status.word : Status → Text
  | .translated => "translated"
  | .skipped => "skipped"
  | .failed => "failed"

/-- The outcome for one file. -/
structure Outcome where
  input : Path
  /-- Where the Go text was written. -/
  output? : Option Path := none
  status : Status
  message? : Option Text := none
  /-- The Go text, where it is to be printed. -/
  generated? : Option Text := none
  deriving DecidableEq, Repr

/-- An outcome that failed. -/
def Outcome.failure (input : Path) (message : Text) : Outcome :=
  { input, status := .failed, message? := some message }

/-- The number of outcomes of each status. -/
structure Summary where
  translated : Nat
  skipped : Nat
  failed : Nat
  deriving DecidableEq, Repr

/-- The counts over some outcomes. -/
def Summary.ofOutcomes (outcomes : List Outcome) : Summary :=
  let count (s : Status) := outcomes.countP (·.status == s)
  ⟨count .translated, count .skipped, count .failed⟩

/-- Whether no file failed. -/
def Summary.passed (s : Summary) : Bool := s.failed == 0

end GoDraft
