import GoDraft.Go.Layout
import GoDraft.Go.Program
import GoDraft.Java.Outline

/-!
# GoDraft — drafting Go from Java

One run: the outline of a source text is read, the program is put together from it and, if wanted,
laid out. A blank source text has nothing to draft, and a fault in the reader of outlines ends the run
with its message.

* `Drafter.run` — the outcome and the records of a run;
* `draft` — the outcome with the usual reader.
-/

namespace GoDraft

/-- Why there is no draft. -/
inductive DraftError where
  /-- The source text is blank. -/
  | nothingToTranslate
  /-- The run broke off. -/
  | failed (message : Text)
  deriving DecidableEq, Repr

/-- The text of an error. -/
def DraftError.message : DraftError → Text
  | .nothingToTranslate => "nothing to translate"
  | .failed message => "translation failed: " ++ message

/-- How drafts are made. -/
structure Drafter where
  settings : Settings := {}
  /-- Whether the program is laid out by its braces. -/
  reindent : Bool := false
  /-- The reader of outlines. -/
  outlineOf : Text → Except Fault OutlineReading := readOutline

namespace Drafter

/-- The Go text for a source text with a given outline. -/
def render (d : Drafter) (source : Text) (o : Outline) : Text :=
  let out := program d.settings source o
  if d.reindent then GoDraft.reindent out else out

/-- The draft for a source text, and the records of the run. -/
def run (d : Drafter) (source : Text) : Except DraftError Text × Log :=
  if source.isBlank then (.error .nothingToTranslate, [])
  else
    match d.outlineOf source with
    | .error fault =>
      (.error (.failed fault.message), [⟨.warn, "translation failed: " ++ fault.message⟩])
    | .ok reading =>
      let out := d.render source reading.outline
      let summary : Text :=
        "translated " ++ decimalText source.size ++ " bytes into " ++ decimalText out.size
          ++ " bytes"
      (.ok out, reading.log ++ programLog source reading.outline ++ [⟨.debug, summary⟩])

/-- The draft for a source text. -/
def draft (d : Drafter) (source : Text) : Except DraftError Text := (d.run source).1

end Drafter

/-- The draft for a source text under given settings. -/
def draft (settings : Settings) (source : Text) : Except DraftError Text :=
  ({ settings } : Drafter).draft source

end GoDraft
