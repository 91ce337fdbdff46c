import GoDraft.Settings
import GoDraft.Text.Blank
import GoDraft.Yaml.Scalar

/-!
# GoDraft — settings from a file

A settings file is a YAML mapping from the names of settings to truth values. Settings that it does
not name keep their usual values, and names it should not have are passed over. The first thing that
is wrong is the error, so a wrong value comes before a syntax error further on.

* `Settings.ofYaml` — reads the text of a settings file;
* `SettingsError.message` — what is wrong with it.
-/

namespace GoDraft

open Yaml

/-- The name of a setting. -/
inductive SettingKey where
  | keepComments
  | pointerReceivers
  | exportFields
  | libraryCalls
  deriving DecidableEq, Repr

namespace SettingKey

/-- All settings. -/
def all : List SettingKey := [keepComments, pointerReceivers, exportFields, libraryCalls]

/-- The name of a setting in a file. -/
def name : SettingKey → Text
  | .keepComments => "keep_comments"
  | .pointerReceivers => "use_pointer_receivers"
  | .exportFields => "capitalize_exported_fields"
  | .libraryCalls => "rewrite_library_calls"

/-- The setting with a name. -/
def ofName? (t : Text) : Option SettingKey := all.find? (·.name == t)

end SettingKey

/-- The settings with one of them changed. -/
def Settings.set (s : Settings) (value : Bool) : SettingKey → Settings
  | .keepComments => { s with keepComments := value }
  | .pointerReceivers => { s with pointerReceivers := value }
  | .exportFields => { s with exportFields := value }
  | .libraryCalls => { s with libraryCalls := value }

/-- Why a text is no settings file. -/
inductive SettingsError where
  | malformed (e : SyntaxError)
  /-- A second document follows. -/
  | moreDocuments
  /-- The document ends inside a value. -/
  | endOfText
  /-- Something else stands where something is expected. -/
  | wrongType (key? : Option Text) (found expected : Text) (mark : Yaml.Mark)
  /-- A scalar is not what its tag says. -/
  | wrongValue (key? : Option Text) (found expected : Text) (mark : Yaml.Mark)
  | duplicate (key : SettingKey) (mark : Yaml.Mark)
  deriving DecidableEq, Repr

namespace SettingsError

/-- The start of a message about the value of a key. -/
def keyNote : Option Text → Text
  | none => []
  | some key => key ++ ": "

/-- The text of an error. -/
def message : SettingsError → Text
  | .malformed e => e.message
  | .moreDocuments =>
    "deserializing from YAML containing more than one document is not supported"
  | .endOfText => "EOF while parsing a value"
  | .wrongType key? found expected mark =>
    keyNote key? ++ "invalid type: " ++ found ++ ", expected " ++ expected ++ mark.note
  | .wrongValue key? found expected mark =>
    keyNote key? ++ "invalid value: string " ++ found.quoted ++ ", expected " ++ expected
      ++ mark.note
  | .duplicate key mark => "duplicate field `" ++ key.name ++ "`" ++ mark.note

end SettingsError

/-- A document with what an alias in it stands for. -/
def Yaml.Document.resolve (doc : Document) (event : Event) (mark : Yaml.Mark) :
    Event × Yaml.Mark :=
  match event with
  | .alias target => (doc.events[target]?).getD (event, mark)
  | _ => (event, mark)

namespace SettingsFile

/-- The error for an event that is not what is expected. -/
def mismatch (key? : Option Text) (expected : Text) (event : Event) (mark : Yaml.Mark) :
    SettingsError :=
  match event with
  | .scalar tag? value style =>
    match Content.ofScalar tag? value style with
    | .ok content => .wrongType key? content.text expected mark
    | .error asked => .wrongValue key? value asked mark
  | .sequenceStart => .wrongType key? "sequence" expected mark
  | .mappingStart => .wrongType key? "map" expected mark
  | _ => .endOfText

/-- Whether a scalar may stand for a truth value: a plain one, or a literal one with the right tag. -/
def mayBeTruth (tag? : Option Text) (style : Style) : Bool :=
  style = .plain || (style = .literal && tag? = some (Content.knownTag "bool"))

/-- The truth value of a setting. -/
def truth (key : Text) (event : Event) (mark : Yaml.Mark) : Except SettingsError Bool :=
  let wrong := Except.error (mismatch (some key) "a boolean" event mark)
  match event with
  | .scalar tag? value style =>
    if mayBeTruth tag? style then
      match Content.truth? value with
      | some b => .ok b
      | none => wrong
    else wrong
  | _ => wrong

/-- A place in the mapping. -/
inductive Place where
  /-- Before a key, or at the end. -/
  | atKey
  /-- Before the value of a setting, with the key as it is shown. -/
  | atValue (setting : SettingKey) (key : Text)
  /-- Before a value that is passed over. -/
  | atOther
  /-- Inside of `depth` collections that are passed over. -/
  | inOther (depth : Nat)
  deriving DecidableEq, Repr

/-- The place behind an event of a value that is passed over. -/
def passOver (depth : Nat) : Event → Place
  | .sequenceStart | .mappingStart => .inOther (depth + 1)
  | .sequenceEnd | .mappingEnd => if depth ≤ 1 then .atKey else .inOther (depth - 1)
  | _ => if depth = 0 then .atKey else .inOther depth

/-- Reads the pairs of the mapping that begins at a place. -/
def pairs (doc : Document) (opened : Yaml.Mark) :
    Place → List SettingKey → Settings → List (Event × Yaml.Mark) → Except SettingsError Settings
  | _, _, _, [] =>
    .error (match doc.error? with
      | some e => .malformed e
      | none => .endOfText)
  | .atKey, seen, settings, (event, mark) :: rest =>
    match event, doc.resolve event mark with
    | .mappingEnd, _ => .ok settings
    | _, (.scalar _ name _, _) =>
      match SettingKey.ofName? name with
      | none => pairs doc opened .atOther seen settings rest
      | some setting =>
        if setting ∈ seen then .error (.duplicate setting opened)
        else
          let shown : Text := match event with
            | .scalar .. => name
            | _ => "?"
          pairs doc opened (.atValue setting shown) (setting :: seen) settings rest
    | _, (other, place) => .error (mismatch none "field identifier" other place)
  | .atValue setting key, seen, settings, (event, mark) :: rest =>
    let (event, mark) := doc.resolve event mark
    match truth key event mark with
    | .ok value => pairs doc opened .atKey seen (settings.set value setting) rest
    | .error e => .error e
  | .atOther, seen, settings, (event, _) :: rest =>
    pairs doc opened (passOver 0 event) seen settings rest
  | .inOther depth, seen, settings, (event, _) :: rest =>
    pairs doc opened (passOver depth event) seen settings rest

/-- The settings of a document; one that is missing or empty changes none. -/
def ofDocument (doc : Document) : Except SettingsError Settings :=
  match doc.events with
  | [] =>
    match doc.error? with
    | some e => .error (.malformed e)
    | none => .ok {}
  | (.mappingStart, mark) :: rest => pairs doc mark .atKey [] {} rest
  | (event, mark) :: _ =>
    if event matches .scalar _ [] .plain then .ok {}
    else .error (mismatch none "struct TranslatorConfig" event mark)

end SettingsFile

/-- Reads the text of a settings file. -/
def Settings.ofYaml (t : Text) : Except SettingsError Settings := do
  if t.isBlank then return {}
  let doc := Document.ofText t
  let settings ← SettingsFile.ofDocument doc
  match doc.error? with
  | some e => throw (.malformed e)
  | none => if doc.hasMore then throw .moreDocuments else return settings

end GoDraft
