import GoDraft.Text.Basic

/-!
# GoDraft — reading command-line options

A command has options, with a short and a long name, and perhaps one word of its own. An option may
take a value, from the same argument or from the next one. A value from the next argument, and the
word, are only examined when the following option or word is met or the arguments end, so an argument
that nobody knows is told before a value that is wrong.

* `ArgumentReading.argument` — takes one argument;
* `ArgumentReading.arguments` — takes all of them;
* `ArgumentReading.resolve` — examines what was not examined yet.
-/

namespace GoDraft

/-- Why the arguments do not make a command. Asking for help or for the version is one reason. -/
inductive UsageError where
  | help
  | version
  /-- There are no arguments at all. -/
  | helpForNothing
  | missingCommand
  | unknownCommand
  | unknownArgument
  | missingArgument
  /-- An option is given again, or two that exclude each other. -/
  | conflict
  | invalidValue
  /-- A value is attached to an option that takes none. -/
  | tooManyValues
  deriving DecidableEq, Repr

/-- What an option does. -/
inductive Action where
  | flag
  | count
  | help
  | version
  /-- Takes a value: a path, which is never empty, or any text; only once, or any number of times. -/
  | value (isPath isRepeated : Bool)
  deriving DecidableEq, Repr

/-- Whether an option takes a value. -/
def Action.takesValue : Action → Bool
  | .value .. => true
  | _ => false

/-- An option, or the word of a command. -/
structure Choice where
  /-- The name by which it is looked up. -/
  name : Text
  short? : Option Char := none
  /-- Whether the name, behind two dashes, is the long name of an option. -/
  isLong : Bool := true
  action : Action
  deriving DecidableEq, Repr

/-- What a command understands. -/
structure Usage where
  options : List Choice
  word? : Option Choice := none
  /-- The commands that may follow. -/
  commands : List Text := []

namespace Usage

/-- The option with a long name. -/
def long? (u : Usage) (name : Text) : Option Choice :=
  u.options.find? fun c => c.isLong && c.name == name

/-- The option with a short name. -/
def short? (u : Usage) (c : Char) : Option Choice := u.options.find? fun o => o.short? == some c

/-- The error for a word that has no place. -/
def strayWord (u : Usage) (trailing : Bool) (word : Text) : UsageError :=
  if u.commands.isEmpty || (trailing && u.commands.elem word) then .unknownArgument
  else .unknownCommand

end Usage

/-- Arguments while they are read. -/
structure ArgumentReading where
  /-- The options that are settled, each with its value, in order. -/
  given : List (Text × Text) := []
  /-- What is not examined yet, and its value, if that has come. -/
  pending? : Option (Choice × Option Text) := none
  /-- Whether all further arguments are words. -/
  trailing : Bool := false
  /-- Whether the word of the command has come. -/
  hasWord : Bool := false
  deriving DecidableEq, Repr

namespace ArgumentReading

/-- The number of times an option was given. -/
def count (r : ArgumentReading) (name : Text) : Nat := r.given.countP (·.1 == name)

/-- Whether an option was given. -/
def has (r : ArgumentReading) (name : Text) : Bool := r.given.any (·.1 == name)

/-- The value of an option. -/
def value? (r : ArgumentReading) (name : Text) : Option Text := r.given.lookup name

/-- All values of an option. -/
def values (r : ArgumentReading) (name : Text) : List Text :=
  (r.given.filter (·.1 == name)).map Prod.snd

/-- Settles an option with the value it has. -/
def settle (r : ArgumentReading) (c : Choice) (value? : Option Text) :
    Except UsageError ArgumentReading :=
  let settled (value : Text) : ArgumentReading := { r with given := r.given ++ [(c.name, value)] }
  match c.action with
  | .help => .error .help
  | .version => .error .version
  | .count => .ok (settled [])
  | .flag => if r.has c.name then .error .conflict else .ok (settled [])
  | .value isPath isRepeated =>
    match value? with
    | none => .error .invalidValue
    | some value =>
      if !isRepeated && r.has c.name then .error .conflict
      else if isPath && value.isEmpty then .error .invalidValue
      else .ok (settled value)

/-- Examines what was not examined yet. -/
def resolve (r : ArgumentReading) : Except UsageError ArgumentReading :=
  match r.pending? with
  | none => .ok r
  | some (c, value?) => { r with pending? := none }.settle c value?

/-- Takes an option that is complete. -/
def react (r : ArgumentReading) (c : Choice) (value? : Option Text) :
    Except UsageError ArgumentReading := do
  (← r.resolve).settle c value?

/-- Takes an option that takes a value, with the value attached to it or yet to come. -/
def withValue (r : ArgumentReading) (c : Choice) (attached? : Option Text) :
    Except UsageError ArgumentReading :=
  match attached? with
  | some value => r.react c (some value)
  | none => do return { ← r.resolve with pending? := some (c, none) }

/-- Takes a word. -/
def word (u : Usage) (r : ArgumentReading) (arg : Text) : Except UsageError ArgumentReading :=
  match if r.hasWord then none else u.word? with
  | none => .error (u.strayWord r.trailing arg)
  | some c => do return { ← r.resolve with pending? := some (c, some arg), hasWord := true }

/-- Takes an argument that begins with two dashes, without them. -/
def long (u : Usage) (r : ArgumentReading) (body : Text) : Except UsageError ArgumentReading :=
  let name := body.takeWhile (· != '=')
  let attached? : Option Text :=
    if body.elem '=' then some (body.drop (name.length + 1)) else none
  match u.long? name with
  | none => .error .unknownArgument
  | some c =>
    if c.action.takesValue then r.withValue c attached?
    else if attached?.isSome then .error .tooManyValues
    else r.react c none

/-- Takes an argument that begins with one dash, without it: one option after another, up to the first
that takes a value. -/
def shorts (u : Usage) (r : ArgumentReading) : Text → Except UsageError ArgumentReading
  | [] => .ok r
  | c :: rest =>
    match u.short? c with
    | none => .error .unknownArgument
    | some choice =>
      if choice.action.takesValue then
        r.withValue choice (match rest with
          | [] => none
          | '=' :: value => some value
          | value => some value)
      else
        match r.react choice none with
        | .ok next => next.shorts u rest
        | .error e => .error e

/-- Takes an argument that is no option: the value that an option waits for, or a word. -/
def plain (u : Usage) (r : ArgumentReading) (arg : Text) : Except UsageError ArgumentReading :=
  match r.pending? with
  | some (c, none) => .ok { r with pending? := some (c, some arg) }
  | _ => r.word u arg

/-- Takes one argument. -/
def argument (u : Usage) (r : ArgumentReading) (arg : Text) : Except UsageError ArgumentReading :=
  if r.trailing then r.word u arg
  else
    match arg with
    | ['-', '-'] => .ok { r with trailing := true }
    | '-' :: '-' :: body => r.long u body
    | ['-'] => r.plain u arg
    | '-' :: body => r.shorts u body
    | _ => r.plain u arg

/-- Takes all arguments, and examines the last one. -/
def arguments (u : Usage) (r : ArgumentReading) (args : List Text) :
    Except UsageError ArgumentReading := do
  (← args.foldlM (argument u) r).resolve

end ArgumentReading

end GoDraft
