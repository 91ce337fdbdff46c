import GoDraft.Java.Outline
import GoDraft.Proofs.Body.Seams

/-!
# GoDraft — a language of classes

An outline is read from text. To say that nothing is lost on the way, the declarations have to be there
first: this module gives classes with their members, their Java text, and the declarations that should be
read back from it. Bodies are the statements of `Statements`, in any layout, and any spacing may stand
around members, none included.

* `Word`, `Initial` — the words of declarations and the values of fields;
* `FieldSource`, `MethodSource`, `Member`, `ClassSource` — classes and their members;
* `ClassSource.text` — the Java text of a class;
* `ClassSource.decl` — its declaration.
-/

namespace GoDraft

/-! ## Words and values -/

/-- Words that mean something of their own in a declaration. -/
def memberWords : List Text := ["public", "private", "protected", "static", "final", "class"]

/-- A name that is no word of declarations either. -/
structure Word extends Name where
  notMember : text ∉ memberWords

/-- The characters that the content of a literal leaves out. -/
def literalStops : Text := "\"\\\n()"

/-- The value of a field: a word, or a literal in double quotes. -/
inductive Initial where
  | word (w : Word)
  | literal (content : Text) (plain : ∀ c ∈ content, c ∉ literalStops)

/-- The text of a value. -/
def Initial.text : Initial → Text
  | word w => w.text
  | literal content _ => '"' :: (content ++ ['"'])

/-! ## Members -/

/-- The word of an access and the space behind it, if it is marked. -/
def Access.lead (a : Access) : Text := a.word?.elim [] (· ++ [' '])

/-- An equals sign and a value, if there is one. -/
def valueText : Option Text → Text
  | none => []
  | some value => " = " ++ value

/-- A type and a name behind an access, with the value if there is one. -/
def fieldText (access : Access) (type name : Text) (value? : Option Text) : Text :=
  access.lead ++ (type ++ ' ' :: (name ++ (valueText value? ++ [';'])))

/-- A field of a class. -/
structure FieldSource where
  access : Access
  type : Word
  name : Word
  initial? : Option Initial

namespace FieldSource

/-- The Java text of a field. -/
def text (f : FieldSource) : Text := fieldText f.access f.type.text f.name.text (f.initial?.map Initial.text)

/-- The declaration of a field. -/
def field (f : FieldSource) : Field where
  access := f.access
  typeName := f.type.text
  name := f.name.text
  default? := f.initial?.map Initial.text

end FieldSource

/-- A method of a class, other than `main`, with the spacing inside the start of its block. -/
structure MethodSource where
  access : Access
  returnType : Word
  name : Word
  params : List (Word × Word)
  inner : Spacing
  body : Statements Spacing
  notMain : name.text ≠ "main"
  plainBody : ∀ n ∈ body.names, n.text ∉ memberWords

namespace MethodSource

/-- The text of a parameter. -/
def paramText (p : Word × Word) : Text := p.1.text ++ ' ' :: p.2.text

/-- The text of the parameters of a method. -/
def paramsText (m : MethodSource) : Text := Text.join ", " (m.params.map paramText)

/-- The header of a method, up to the brace that opens its block. -/
def header (m : MethodSource) : Text :=
  m.access.lead ++ (m.returnType.text ++ ' ' :: (m.name.text ++ '(' :: (m.paramsText ++ ") \x7b")))

/-- The text between the braces of a method. -/
def block (m : MethodSource) : Text := m.inner.text ++ m.body.text

/-- The Java text of a method. -/
def text (m : MethodSource) : Text := m.header ++ (m.block ++ "\x7d")

theorem text_eq (m : MethodSource) : m.text = m.header ++ (m.block ++ ['}']) := rfl

theorem text_append (m : MethodSource) (t : Text) : m.text ++ t = m.header ++ (m.block ++ '}' :: t) := by
  rw [text_eq, List.append_assoc, List.append_assoc]
  rfl

/-- The declaration of a method. -/
def method (m : MethodSource) : Method where
  access := m.access
  returnType := m.returnType.text
  name := m.name.text
  params := m.params.map fun p => ⟨p.1.text, p.2.text⟩
  body := m.block.trim

end MethodSource

/-- A member of a class. -/
inductive Member where
  | field (f : FieldSource)
  | method (m : MethodSource)

namespace Member

/-- The Java text of a member. -/
def text : Member → Text
  | field f => f.text
  | method m => m.text

/-- The field that a member is. -/
def field? : Member → Option FieldSource
  | field f => some f
  | method _ => none

/-- The method that a member is. -/
def method? : Member → Option MethodSource
  | field _ => none
  | method m => some m

end Member

/-- The Java text of members, each with the spacing behind it. -/
def membersText : List (Member × Spacing) → Text
  | [] => []
  | (m, w) :: ms => m.text ++ (w.text ++ membersText ms)

theorem membersText_cons_append (m : Member) (w : Spacing) (ms : List (Member × Spacing)) (t : Text) :
    membersText ((m, w) :: ms) ++ t = m.text ++ (w.text ++ (membersText ms ++ t)) := by
  rw [membersText, List.append_assoc, List.append_assoc]

/-! ## Classes -/

/-- A public class, with the spacing inside the start of its block. No method has its name, since that
would be a constructor. -/
structure ClassSource where
  name : Word
  inner : Spacing
  members : List (Member × Spacing)
  notConstructor : ∀ x ∈ members, ∀ m ∈ x.1.method?, m.name.text ≠ name.text

namespace ClassSource

/-- The header of a class, up to the brace that opens its block. -/
def header (c : ClassSource) : Text := "public class " ++ (c.name.text ++ " \x7b")

theorem header_eq (c : ClassSource) :
    c.header = "public class ".toList ++ (c.name.text ++ " \x7b".toList) := rfl

/-- The Java text of a class. -/
def text (c : ClassSource) : Text := c.header ++ (c.inner.text ++ (membersText c.members ++ "\x7d"))

theorem text_eq (c : ClassSource) :
    c.text = c.header ++ (c.inner.text ++ (membersText c.members ++ ['}'])) := rfl

/-- The declaration of a class: its fields and its methods, in the order of its members. -/
def decl (c : ClassSource) : ClassDecl where
  name := c.name.text
  fields := c.members.filterMap fun x => x.1.field?.map FieldSource.field
  methods := c.members.filterMap fun x => x.1.method?.map MethodSource.method

end ClassSource

end GoDraft
