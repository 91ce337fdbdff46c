import GoDraft.Text.Basic

/-!
# GoDraft — log records

What a run tells about itself. A verbosity selects the records that are shown: warnings always, then
with each step more.
-/

namespace GoDraft

/-- The importance of a record, most important first. -/
inductive Level where
  | error
  | warn
  | info
  | debug
  | trace
  deriving DecidableEq, Repr

namespace Level

/-- The place of a level in the order of importance. -/
def rank : Level → Nat
  | .error => 1
  | .warn => 2
  | .info => 3
  | .debug => 4
  | .trace => 5

/-- The name of a level. -/
def name : Level → Text
  | .error => "ERROR"
  | .warn => "WARN"
  | .info => "INFO"
  | .debug => "DEBUG"
  | .trace => "TRACE"

/-- The least important level shown at a verbosity. -/
def ofVerbosity : Nat → Level
  | 0 => .warn
  | 1 => .info
  | 2 => .debug
  | _ => .trace

end Level

/-- A message with its importance. -/
structure LogRecord where
  level : Level
  message : Text
  deriving DecidableEq, Repr

/-- The records of one run, in the order in which they arose. -/
abbrev Log := List LogRecord

/-- The records that are at least as important as a level; without a level, none. -/
def Log.upTo (log : Log) (limit : Option Level) : Log :=
  log.filter fun r => limit.any (r.level.rank ≤ ·.rank)

/-- A natural number in decimal. -/
def decimalText (n : Nat) : Text := Nat.toDigits 10 n

/-- A truth value as a word. -/
def boolText (b : Bool) : Text := if b then "true" else "false"

end GoDraft
