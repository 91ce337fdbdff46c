import GoDraft.Proofs.Java.FieldSearch
import GoDraft.Proofs.Java.MethodSearch

/-!
# GoDraft — reading back a class

Reading the outline of the text of a class gives back the class. The three searches for the class, its
fields and its methods go through the same text without regard to each other; that none of them takes a
member for part of another is seen member by member.

* `ClassSource.findClassName_text`, `ClassSource.findMainBody_text` — the name, and no `main`;
* `readOutline_text` — **the outline of the text of a class is its declaration**.
-/

namespace GoDraft

open Pattern

/-- The declaration of a class, up to its name. -/
def ClassSource.head (c : ClassSource) : ClassHead where
  gap := " "
  gap' := " "
  name := c.name.text
  gap_ne := by decide
  gap_blank := by decide
  gap'_ne := by decide
  gap'_blank := by decide
  name_ne := c.name.nonempty
  name_word d hd := isWordChar_of_mem_nameChars (c.name.plain d hd)

theorem not_takenAlong_nil (source : Text) : ¬ TakenAlong source [] := by
  rintro ⟨h, front, s, rest, -, -, -, htext, hpre⟩
  obtain ⟨-, rfl⟩ := List.append_eq_nil_iff.mp hpre.symm
  have hname := List.length_pos_iff.mpr h.name_ne
  have hlength := congrArg List.length htext
  simp only [ClassHead.text_eq, List.length_append, List.length_nil] at hlength
  omega

theorem ClassSource.findClassName_text (c : ClassSource) : findClassName c.text = some c.name.text := by
  have hsource : c.text = c.head.text ++ (" \x7b".toList ++ (c.inner.text ++ (membersText c.members ++ ['}']))) := by
    rw [text_eq, header_eq, ClassHead.text_eq, List.append_assoc, List.append_assoc, List.append_assoc]
    rfl
  have hcode : isCodeAt c.text 0 = true := by
    rw [hsource]
    rfl
  have hfirst : FirstClass c.text [] c.name.text :=
    ⟨⟨c.head, _, rfl, hsource, rfl, hcode⟩, fun _ _ _ => Nat.zero_le _⟩
  exact hfirst.findClassName_eq (not_takenAlong_nil _)

theorem mainHeader_has_static : mainHeader.Has "static" := by
  iterate 15 apply Has.left
  exact (Has.text List.infix_rfl).right

theorem findMainBody_of_noStatic {t : Text} (h : ¬ "static".toList <:+: t) : findMainBody t = .ok none := by
  rw [findMainBody, find?_of_not_infix mainHeader_has_static h]

/-- The outline of a text with a class, from what the searches give. -/
theorem map_outline_readOutline {source name : Text} {main? : Option Text} {xs : List FieldFinding}
    {ys : List MethodFinding} (hmain : findMainBody source = .ok main?) (hname : findClassName source = some name)
    (hfields : fieldFindings source = .ok xs) (hmethods : methodFindings source name = .ok ys) :
    (readOutline source).map OutlineReading.outline = .ok
      ⟨some ⟨name, xs.filterMap FieldFinding.field?, ys.filterMap MethodFinding.method?, main?⟩, none⟩ := by
  unfold readOutline
  rw [hmain, hname, hfields]
  simp only [bind, Except.bind, hmethods]
  rfl

/-- **Reading undoes writing**: where `static` stands nowhere in the text of a class, its outline has the
class with its fields and methods as they are declared, in order, and no `main`. -/
theorem readOutline_text (c : ClassSource) (h : ¬ "static".toList <:+: c.text) :
    (readOutline c.text).map OutlineReading.outline = .ok { class? := some c.decl } := by
  obtain ⟨xs, hxs, hfields⟩ := c.yields h
  obtain ⟨ys, hys, hmethods⟩ := c.methods
  rw [map_outline_readOutline (findMainBody_of_noStatic h) c.findClassName_text hxs hys, hfields, hmethods]
  rfl

/-! ## A class with braces in a literal -/

/-- The word of a text. -/
def Word.of (t : Text) (h : (t ≠ [] ∧ ∀ c ∈ t, c ∈ nameChars) ∧ t ∉ controlWords ∧ t ∉ memberWords) : Word :=
  ⟨⟨t, h.1.1, h.1.2, h.2.1⟩, h.2.2⟩

/-- A class with a field whose value looks like the end of a class, and a method whose body has
statements of the shape of a field. -/
def counterSource : ClassSource where
  name := .of "Counter" (by decide)
  inner := .newline
  members :=
    [(.field ⟨.priv, .of "String" (by decide), .of "mark" (by decide), some (.literal "\x7d int x;" (by decide))⟩,
      .newline),
     (.method
        { access := .pub
          returnType := .of "int" (by decide)
          name := .of "pick" (by decide)
          params := [(.of "int" (by decide), .of "a" (by decide)), (.of "int" (by decide), .of "b" (by decide))]
          inner := .newline
          body := .block (.branch ⟨Word.toName (.of "a" (by decide)), .less, Word.toName (.of "b" (by decide))⟩) .newline
            (.simple (.declare (Word.toName (.of "int" (by decide))) (Word.toName (.of "c" (by decide)))
              (Word.toName (.of "a" (by decide)))) .newline
              (.simple (.giveBack (Word.toName (.of "c" (by decide)))) .newline .done))
            .newline (.simple (.giveBack (Word.toName (.of "b" (by decide)))) .newline .done)
          notMain := by decide
          plainBody := by decide }, .newline),
     (.field ⟨.unmarked, .of "int" (by decide), .of "count" (by decide), none⟩, .newline)]
  notConstructor := by decide

/-- The lines of the body of the method. -/
def pickLines : List Text := ["if (a < b) \x7b", "int c = a;", "return c;", "\x7d", "return b;"]

/-- The lines of the class. -/
def counterLines : List Text :=
  ["public class Counter \x7b", "private String mark = \"\x7d int x;\";", "public int pick(int a, int b) \x7b",
    Text.join "\n" pickLines, "\x7d", "int count;", "\x7d"]

/-- The text of the class. -/
def counterText : Text := Text.join "\n" counterLines

/-- The declaration of the class. -/
def counterDecl : ClassDecl where
  name := "Counter"
  fields := [⟨.priv, "String", "mark", some "\"\x7d int x;\""⟩, ⟨.unmarked, "int", "count", none⟩]
  methods := [⟨.pub, "int", "pick", [⟨"int", "a"⟩, ⟨"int", "b"⟩], Text.join "\n" pickLines⟩]

theorem readOutline_counterText :
    ¬ "static".toList <:+: counterText ∧
      (readOutline counterText).map OutlineReading.outline = .ok { class? := some counterDecl } := by
  have htext : counterSource.text = counterText := by decide +kernel
  have hdecl : counterSource.decl = counterDecl := by decide +kernel
  have hstatic : ¬ "static".toList <:+: counterText := by decide +kernel
  refine ⟨hstatic, ?_⟩
  rw [← htext, ← hdecl]
  exact readOutline_text counterSource (by rwa [htext])

end GoDraft
