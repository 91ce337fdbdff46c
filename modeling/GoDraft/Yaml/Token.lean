import GoDraft.Yaml.Mark

/-!
# GoDraft — the tokens of a YAML text
-/

namespace GoDraft.Yaml

/-- How a scalar is written. -/
inductive Style where
  | plain
  | singleQuoted
  | doubleQuoted
  | literal
  | folded
  deriving DecidableEq, Repr

/-- A sign or a word of a YAML text. Blocks are made explicit by signs that indentation implies. -/
inductive Sign where
  | streamStart
  | streamEnd
  | versionDirective (major minor : Nat)
  | tagDirective (handle full : Text)
  | documentStart
  | documentEnd
  | blockSequenceStart
  | blockMappingStart
  | blockEnd
  | flowSequenceStart
  | flowSequenceEnd
  | flowMappingStart
  | flowMappingEnd
  | blockEntry
  | flowEntry
  | key
  | value
  | alias (name : Text)
  | anchor (name : Text)
  | tag (handle suffix : Text)
  | scalar (value : Text) (style : Style)
  deriving DecidableEq, Repr

/-- A sign and the places at its ends. -/
structure Token where
  sign : Sign
  start : Mark
  stop : Mark
  deriving DecidableEq, Repr

end GoDraft.Yaml
