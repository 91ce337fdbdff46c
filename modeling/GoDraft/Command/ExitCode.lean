import GoDraft.Text.Basic

/-!
# GoDraft — how a command ends
-/

namespace GoDraft

/-- The code that a command ends with. -/
inductive ExitCode where
  | success
  /-- Some file failed. -/
  | failed
  /-- The command could not be carried out. -/
  | error
  deriving DecidableEq, Repr

/-- The number of an exit code. -/
def ExitCode.number : ExitCode → Nat
  | .success => 0
  | .failed => 1
  | .error => 2

/-- A line on its own. -/
def line (t : Text) : Text := t ++ "\n"

end GoDraft
