import GoDraft.Log

/-!
# GoDraft — faults

A fault is a failure inside a run that no input asks for. A reader of source texts may raise one; it
then ends the run with a message, never more than that.
-/

namespace GoDraft

/-- Why a run broke off. -/
inductive Fault where
  /-- With a message. -/
  | told (message : Text)
  /-- Without one. -/
  | untold
  /-- No text lies between two byte offsets. -/
  | badCut (start stop : Nat)
  deriving DecidableEq, Repr

/-- The message of a fault. -/
def Fault.message : Fault → Text
  | .told message => message
  | .untold => "unknown internal error"
  | .badCut start stop =>
    "no text between bytes " ++ decimalText start ++ " and " ++ decimalText stop

/-- The text between two byte offsets, which have to be in order, in range and between characters. -/
def Text.slice (t : Text) (start stop : Nat) : Except Fault Text :=
  match t.slice? start stop with
  | some part => .ok part
  | none => .error (.badCut start stop)

end GoDraft
