import GoDraft.Batch.Outcome
import GoDraft.Log
import GoDraft.Pattern.Search
import GoDraft.Text.Quoted

/-!
# GoDraft — reports

What is told about the outcomes of a batch: as JSON, for programs, or with marks and colours, for
people. The pretty report goes to the error output, so that printed Go text stays alone on the standard
output.
-/

namespace GoDraft

/-- The name of the program. -/
def programName : Text := "java2go"

/-- The version of the program. -/
def programVersion : Text := "0.1.0"

/-! ## JSON -/

namespace Json

/-- A character inside a JSON string. -/
def charText (c : Char) : Text :=
  if c = '"' then "\\\""
  else if c = '\\' then "\\\\"
  else if c = '\n' then "\\n"
  else if c = '\t' then "\\t"
  else if c = '\r' then "\\r"
  else if c = '\x08' then "\\b"
  else if c = '\x0c' then "\\f"
  else if c.toNat < 0x20 then
    "\\u00" ++ (if c.toNat < 16 then '0' :: hexDigits c.toNat else hexDigits c.toNat)
  else [c]

/-- A JSON string. -/
def string (t : Text) : Text := "\"" ++ t.flatMap charText ++ "\""

/-- A member of a JSON object whose value is already written. -/
def member (key : Text) (value : Text) : Text := string key ++ ": " ++ value

/-- Indentation by two spaces a level. -/
def margin (level : Nat) : Text := List.replicate (2 * level) ' '

/-- Items between two brackets, each on a line of its own one level further in. -/
def enclosed (level : Nat) (opening closing : Text) (items : List Text) : Text :=
  if items.isEmpty then opening ++ closing
  else
    opening ++ "\n" ++ Text.join ",\n" (items.map (margin (level + 1) ++ ·)) ++ "\n" ++ margin level
      ++ closing

/-- A JSON object. -/
def object (level : Nat) (members : List Text) : Text := enclosed level "\x7b" "\x7d" members

/-- A JSON array. -/
def array (level : Nat) (items : List Text) : Text := enclosed level "[" "]" items

end Json

namespace Report

/-- A member for a value that may be absent. -/
def optionalMember (key : Text) (value? : Option Text) : List Text :=
  value?.toList.map fun value => Json.member key (Json.string value)

/-- An outcome in the JSON report. -/
def outcomeJson (o : Outcome) : Text :=
  Json.object 2
    ([Json.member "input" (Json.string o.input)]
      ++ optionalMember "output" o.output?
      ++ [Json.member "status" (Json.string o.status.word)]
      ++ optionalMember "message" o.message?
      ++ optionalMember "generated" o.generated?)

/-- The JSON report for a path. -/
def json (path : Path) (outcomes : List Outcome) : Text :=
  let summary := Summary.ofOutcomes outcomes
  Json.object 0
    [Json.member "version" (Json.string programVersion),
     Json.member "path" (Json.string path),
     Json.member "translated" (decimalText summary.translated),
     Json.member "skipped" (decimalText summary.skipped),
     Json.member "failed" (decimalText summary.failed),
     Json.member "files" (Json.array 1 (outcomes.map outcomeJson))]
    ++ "\n"

/-! ## The pretty report -/

/-- How a piece of text is shown. -/
inductive Paint where
  | bold
  | dimmed
  | red
  | green
  | yellow
  | blue
  deriving DecidableEq, Repr

/-- The number of a way to show text in the terminal's escapes. -/
def Paint.code : Paint → Text
  | .bold => "1"
  | .dimmed => "2"
  | .red => "31"
  | .green => "32"
  | .yellow => "33"
  | .blue => "34"

/-- The escape that ends all paint. -/
def resetEscape : Text := "\x1b[0m"

/-- A text with an escape again behind every reset inside it. -/
def repaint (escape : Text) (t : Text) : Text :=
  (Pattern.text resetEscape).replaceAll (fun _ => resetEscape ++ escape) t

/-- A text in a colour, if colours are on. -/
def paint (color : Bool) (p : Paint) (t : Text) : Text :=
  if color then
    let escape : Text := "\x1b[" ++ p.code ++ "m"
    escape ++ repaint escape t ++ resetEscape
  else t

/-- The mark of a status. -/
def statusMark (color : Bool) : Status → Text
  | .translated => paint color .green "✓"
  | .skipped => paint color .yellow "-"
  | .failed => paint color .red "✗"

/-- Where an outcome was written, in its line. -/
def outputNote (color : Bool) (o : Outcome) : Text :=
  match o.status, o.output? with
  | .translated, some output => " " ++ paint color .dimmed "→" ++ " " ++ output
  | _, _ => []

/-- The line of a message. -/
def messageLine (color : Bool) (message : Text) : Text :=
  "      " ++ paint color .dimmed message ++ "\n"

/-- The lines of an outcome. -/
def outcomeLines (color : Bool) (o : Outcome) : Text :=
  "    " ++ statusMark color o.status ++ " " ++ paint color .blue o.input ++ outputNote color o ++ "\n"
    ++ o.message?.toList.flatMap (messageLine color)

/-- A count that is told only if it is not zero. -/
def countNote (color : Bool) (p : Paint) (count : Nat) (word : Text) : Text :=
  if count = 0 then [] else ", " ++ paint color p (decimalText count) ++ " " ++ word

/-- The last line of the report. -/
def summaryLine (color : Bool) (s : Summary) : Text :=
  "  " ++ (if s.passed then paint color .green "Translation complete"
           else paint color .red "Translation error")
    ++ "  " ++ paint color .bold (decimalText s.translated) ++ " translated"
    ++ countNote color .yellow s.skipped "skipped"
    ++ countNote color .red s.failed "failed" ++ "\n"

/-- The Go text that is to be printed. -/
def prettyOutput (outcomes : List Outcome) : Text :=
  outcomes.flatMap fun o => o.generated?.getD []

/-- The pretty report for a path. -/
def pretty (color : Bool) (path : Path) (outcomes : List Outcome) : Text :=
  "\n  " ++ paint color .bold programName ++ " " ++ paint color .dimmed path ++ "\n\n"
    ++ outcomes.flatMap (outcomeLines color)
    ++ "\n" ++ summaryLine color (Summary.ofOutcomes outcomes) ++ "\n"

end Report

end GoDraft
