import GoDraft.Draft
import GoDraft.Proofs.Java.Reading
import GoDraft.Proofs.Text.Lines
import GoDraft.Proofs.Text.Uppercase

/-!
# GoDraft — the blocks of a program

A program is put together from blocks with an empty line between two of them. No block has an empty line of
its own, whatever the source text holds: what a block takes from the source is either a name without blanks or
a line of a recast body, which is trimmed and not empty. So the blocks can be told from the program.

* `Text.paragraphs` — a text cut at its empty lines;
* `Text.paragraphs_join` — blocks without empty lines are the paragraphs of what they are joined to;
* `IsFunction` — the lines of a function;
* `draft_paragraphs` — the paragraphs of the draft of a source text.
-/

namespace GoDraft

/-! ## Paragraphs -/

namespace Text

/-- The parts between two line feeds in a row, from left to right; always at least one. -/
def paragraphs : Text → List Text
  | [] => [[]]
  | '\n' :: '\n' :: t => [] :: paragraphs t
  | c :: t => (paragraphs t).modifyHead (c :: ·)

/-- A character that does not begin two line feeds in a row belongs to the first part. -/
theorem paragraphs_cons {c : Char} {t p : Text} {ps : List Text} (h : c = '\n' → t.head? ≠ some '\n')
    (ht : t.paragraphs = p :: ps) : paragraphs (c :: t) = (c :: p) :: ps := by
  rw [paragraphs, ht]
  · rfl
  · rintro u rfl hu
    exact h rfl (by rw [hu]; rfl)

-- The line feed that begins a line counts with the line, so the first line may be empty here.
/-- In a text whose lines behind the first are not empty, a line feed is not followed by another. -/
theorem solid_of_cons {c : Char} {b : Text} (h : [] ∉ (pieces '\n' (c :: b)).tail) :
    [] ∉ (b.pieces '\n').tail ∧ (c = '\n' → b ≠ [] ∧ b.head? ≠ some '\n') := by
  obtain ⟨p, ps, hps⟩ := List.exists_cons_of_ne_nil (pieces_ne_nil '\n' b)
  by_cases hc : c = '\n'
  · rw [hc, pieces_cons_self, List.tail_cons, hps, List.mem_cons, not_or] at h
    have hfirst : ∀ ps', b.pieces '\n' ≠ [] :: ps' := by
      intro ps' hps'
      rw [hps] at hps'
      exact h.1 (List.cons.inj hps').1.symm
    refine ⟨by rw [hps]; exact h.2, fun _ => ⟨?_, ?_⟩⟩
    · rintro rfl
      exact hfirst [] rfl
    · intro hb
      cases b with
      | nil => cases hb
      | cons d b =>
        obtain rfl := Option.some.inj hb
        exact hfirst _ (pieces_cons_self b)
  · rw [pieces_cons_ne hc hps, List.tail_cons] at h
    exact ⟨by rw [hps]; exact h, fun hnewline => absurd hnewline hc⟩

theorem paragraphs_append (t : Text) : ∀ {b : Text}, [] ∉ (b.pieces '\n').tail →
    paragraphs (b ++ '\n' :: '\n' :: t) = b :: t.paragraphs
  | [], _ => rfl
  | c :: b, h => by
    obtain ⟨hb, hnewline⟩ := solid_of_cons h
    refine paragraphs_cons (fun hc => ?_) (paragraphs_append t hb)
    show (b ++ '\n' :: '\n' :: t).head? ≠ some '\n'
    rw [List.head?_append_of_ne_nil _ (hnewline hc).1]
    exact (hnewline hc).2

theorem paragraphs_eq_singleton : ∀ {b : Text}, [] ∉ (b.pieces '\n').tail → b.paragraphs = [b]
  | [], _ => rfl
  | c :: b, h => by
    obtain ⟨hb, hnewline⟩ := solid_of_cons h
    exact paragraphs_cons (fun hc => (hnewline hc).2) (paragraphs_eq_singleton hb)

/-- Blocks without empty lines are the paragraphs of the text that they are joined to. -/
theorem paragraphs_join : ∀ {bs : List Text}, bs ≠ [] → (∀ b ∈ bs, [] ∉ b.pieces '\n') →
    (join "\n\n" bs).paragraphs = bs
  | [], hne, _ => absurd rfl hne
  | [b], _, h => by
    rw [List.forall_mem_singleton] at h
    exact paragraphs_eq_singleton fun hmem => h (List.mem_of_mem_tail hmem)
  | b :: b' :: bs, _, h => by
    rw [List.forall_mem_cons] at h
    have hrest := paragraphs_join (List.cons_ne_nil b' bs) h.2
    have hjoin : join "\n\n" (b :: b' :: bs) = b ++ '\n' :: '\n' :: join "\n\n" (b' :: bs) := by
      rw [join_cons (List.cons_ne_nil b' bs), List.append_assoc]
      rfl
    rw [hjoin, paragraphs_append _ fun hmem => h.1 (List.mem_of_mem_tail hmem), hrest]

end Text

/-! ## Lines -/

/-- Whether a text is one line that is not empty. -/
def IsLine (line : Text) : Prop := line ≠ [] ∧ '\n' ∉ line

instance (line : Text) : Decidable (IsLine line) := inferInstanceAs (Decidable (_ ∧ _))

theorem IsLine.append {s t : Text} (hs : IsLine s) (ht : '\n' ∉ t) : IsLine (s ++ t) :=
  ⟨fun h => hs.1 (List.append_eq_nil_iff.mp h).1, fun h => (List.mem_append.mp h).elim hs.2 ht⟩

/-- Lines, each with its end. -/
def written (lines : List Text) : Text := lines.flatMap (· ++ "\n")

theorem written_append (ls ls' : List Text) : written (ls ++ ls') = written ls ++ written ls' :=
  List.flatMap_append

theorem written_cons (l : Text) (ls : List Text) : written (l :: ls) = l ++ "\n" ++ written ls :=
  List.flatMap_cons

theorem pieces_written {lines : List Text} (h : ∀ line ∈ lines, '\n' ∉ line) (t : Text) :
    Text.pieces '\n' (written lines ++ t) = lines ++ t.pieces '\n' := by
  induction lines with
  | nil => rfl
  | cons line lines ih =>
    rw [List.forall_mem_cons] at h
    have hline : written (line :: lines) ++ t = line ++ '\n' :: (written lines ++ t) := by
      rw [written_cons, List.append_assoc, List.append_assoc]
      rfl
    rw [hline, Text.pieces_append_sep, Text.pieces_of_not_mem h.1, ih h.2]
    rfl

/-- The lines of a block, of which the last has no end. -/
theorem pieces_block {lines : List Text} {last : Text} (h : ∀ line ∈ lines, IsLine line) (hlast : IsLine last) :
    Text.pieces '\n' (written lines ++ last) = lines ++ [last] := by
  rw [pieces_written fun line hline => (h line hline).2, Text.pieces_of_not_mem hlast.2]

theorem no_empty_line {lines : List Text} {last : Text} (h : ∀ line ∈ lines, IsLine line) (hlast : IsLine last) :
    [] ∉ Text.pieces '\n' (written lines ++ last) := by
  rw [pieces_block h hlast, List.mem_append, List.mem_singleton, not_or]
  exact ⟨fun hmem => (h [] hmem).1 rfl, fun hmem => hlast.1 hmem.symm⟩

/-! ## Names and types -/

theorem newline_notMem_fieldName {exported : Bool} {name : Text} (h : '\n' ∉ name) :
    '\n' ∉ fieldName exported name := by
  unfold fieldName
  split
  · cases name with
    | nil => exact h
    | cons c rest =>
      rw [List.mem_cons, not_or] at h
      show '\n' ∉ uppercase c ++ rest
      rw [List.mem_append, not_or]
      exact ⟨newline_notMem_uppercase (Ne.symm h.1), h.2⟩
  · exact h

theorem notMem_goType {x : Char} (hall : ∀ entry ∈ typeTable, x ∉ entry.go) {java : Text} (h : x ∉ java) :
    x ∉ goType java := by
  rw [goType]
  split
  · rename_i entry hentry
    exact hall entry (List.mem_of_find?_eq_some hentry)
  · exact h

theorem newline_notMem_goType {java : Text} (h : '\n' ∉ java) : '\n' ∉ goType java := notMem_goType (by decide) h

theorem newline_notMem_sampleValue (java : Text) : '\n' ∉ sampleValue java := by
  have hall : ∀ entry ∈ typeTable, ∀ sample, entry.sample = some sample → '\n' ∉ sample := by decide
  rw [sampleValue]
  cases hknown : knownType? java with
  | none => decide
  | some entry =>
    cases hsample : entry.sample with
    | none =>
      rw [Option.bind_some, hsample]
      decide
    | some sample =>
      rw [Option.bind_some, hsample]
      exact hall entry (List.mem_of_find?_eq_some hknown) sample hsample

theorem newline_notMem_join {ts : List Text} (h : ∀ t ∈ ts, '\n' ∉ t) : '\n' ∉ Text.join ", " ts := by
  have hall : ∀ c ∈ Text.join ", " ts, c ≠ '\n' :=
    Text.forall_mem_join (by decide) fun t ht c hc heq => h t ht (heq ▸ hc)
  exact fun hmem => hall _ hmem rfl

theorem newline_notMem_goParam {name typeName : Text} (hname : '\n' ∉ name) (htype : '\n' ∉ typeName) :
    '\n' ∉ goParam name typeName := by
  have hgo := newline_notMem_goType htype
  simp [goParam, hname, hgo]

/-! ## Imports, structs and constructors -/

/-- The line of a comment before a declaration, where comments are wanted. -/
def remarkLines (settings : Settings) (t : Text) : List Text :=
  if settings.keepComments then ["// " ++ t] else []

theorem remark_eq (settings : Settings) (t : Text) : remark settings t = written (remarkLines settings t) := by
  rw [remark, remarkLines]
  split
  · rw [written_cons]
    exact (List.append_nil _).symm
  · rfl

theorem isLine_of_mem_remarkLines {settings : Settings} {t : Text} (h : '\n' ∉ t) :
    ∀ line ∈ remarkLines settings t, IsLine line := by
  rw [remarkLines]
  split
  · rw [List.forall_mem_singleton]
    exact IsLine.append (by decide) h
  · simp

/-- What is written for each of some things, a line for each. -/
theorem flatMap_eq_written {α : Type} {f g : α → Text} (h : ∀ a, f a = g a ++ "\n") (as : List α) :
    as.flatMap f = written (as.map g) := by
  rw [written, List.flatMap_map]
  exact List.flatMap_congr fun a _ => h a

theorem no_empty_line_importBlock {packages : List Text} (h : ∀ package ∈ packages, '\n' ∉ package) :
    [] ∉ (importBlock packages).pieces '\n' := by
  let line (package : Text) : Text := indent ++ "\"" ++ package ++ "\""
  have hpackages : packages.flatMap importLine = written (packages.map line) :=
    flatMap_eq_written (fun package => by simp [importLine, line]) packages
  have hlines : importBlock packages = written ("import (".toList :: packages.map line) ++ ")" := by
    unfold importBlock
    rw [hpackages, written_cons]
    simp
  rw [hlines]
  refine no_empty_line ?_ (by decide)
  rw [List.forall_mem_cons, List.forall_mem_map]
  refine ⟨by decide, fun package hpackage => ?_⟩
  exact (IsLine.append (IsLine.append (by decide) (by decide)) (h package hpackage)).append (by decide)

/-- A class without line feeds in its names and types. -/
structure ClassDecl.Plain (c : ClassDecl) : Prop where
  name : '\n' ∉ c.name
  fieldType : ∀ f ∈ c.fields, '\n' ∉ f.typeName
  fieldName : ∀ f ∈ c.fields, '\n' ∉ f.name
  returnType : ∀ m ∈ c.methods, '\n' ∉ m.returnType
  methodName : ∀ m ∈ c.methods, '\n' ∉ m.name
  paramType : ∀ m ∈ c.methods, ∀ p ∈ m.params, '\n' ∉ p.typeName
  paramName : ∀ m ∈ c.methods, ∀ p ∈ m.params, '\n' ∉ p.name

theorem ClassDecl.ReadFrom.plain {source : Text} {c : ClassDecl} (h : c.ReadFrom source) : c.Plain where
  name := h.name.unspaced.newline
  fieldType f hf := (h.fields f hf).typeName.unspaced.newline
  fieldName f hf := (h.fields f hf).name.unspaced.newline
  returnType m hm := (h.methods m hm).returnType.unspaced.newline
  methodName m hm := (h.methods m hm).name.unspaced.newline
  paramType m hm p hp := ((h.methods m hm).params p hp).typeName.newline
  paramName m hm p hp := ((h.methods m hm).params p hp).name.newline

section Class

variable {settings : Settings} {c : ClassDecl}

theorem newline_notMem_classRef (h : c.Plain) : '\n' ∉ classRef settings c := by
  have hname := h.name
  rw [classRef]
  split <;> simp [hname]

/-- The lines of a struct before its brace. -/
def structLines (settings : Settings) (c : ClassDecl) : List Text :=
  remarkLines settings (c.name ++ " represents the equivalent of Java class " ++ c.name) ++
    ("type " ++ c.name ++ " struct \x7b") :: c.fields.map fun f =>
      indent ++ fieldName settings.exportFields f.name ++ " " ++ goType f.typeName ++ " // was " ++ f.typeName

theorem structDecl_eq (settings : Settings) (c : ClassDecl) :
    structDecl settings c = written (structLines settings c) ++ "\x7d" := by
  have hfields : c.fields.flatMap (structLine settings) = written (c.fields.map fun f =>
      indent ++ fieldName settings.exportFields f.name ++ " " ++ goType f.typeName ++ " // was " ++ f.typeName) :=
    flatMap_eq_written (fun _ => rfl) c.fields
  rw [structDecl, remark_eq, hfields, structLines, written_append, written_cons]
  simp

theorem isLine_of_mem_structLines (h : c.Plain) : ∀ line ∈ structLines settings c, IsLine line := by
  have hname := h.name
  rw [structLines, List.forall_mem_append, List.forall_mem_cons, List.forall_mem_map]
  refine ⟨isLine_of_mem_remarkLines (by simp [hname]), ?_, fun f hf => ?_⟩
  · exact (IsLine.append (by decide) hname).append (by decide)
  · have hfield : '\n' ∉ fieldName settings.exportFields f.name := newline_notMem_fieldName (h.fieldName f hf)
    have hgo := newline_notMem_goType (h.fieldType f hf)
    exact ((((IsLine.append (by decide) hfield).append (by decide)).append hgo).append (by decide)).append
      (h.fieldType f hf)

theorem no_empty_line_structDecl (h : c.Plain) : [] ∉ (structDecl settings c).pieces '\n' := by
  rw [structDecl_eq]
  exact no_empty_line (isLine_of_mem_structLines h) (by decide)

/-- The first line of a constructor. -/
def constructorSignature (settings : Settings) (c : ClassDecl) : Text :=
  "func New" ++ c.name ++ "(" ++ Text.join ", " (c.fields.map fun f => goParam f.name f.typeName) ++ ") " ++
    classRef settings c ++ " \x7b"

/-- The lines of a constructor before its last brace. -/
def constructorLines (settings : Settings) (c : ClassDecl) : List Text :=
  remarkLines settings ("New" ++ c.name ++ " creates a new " ++ c.name ++ " instance") ++
    constructorSignature settings c :: (indent ++ "return " ++ addressSign settings ++ c.name ++ "\x7b") ::
      ((c.fields.map fun f => indent ++ indent ++ fieldName settings.exportFields f.name ++ ": " ++ f.name ++ ",") ++
        [indent ++ "\x7d"])

theorem constructorDecl_eq (settings : Settings) (c : ClassDecl) :
    constructorDecl settings c = written (constructorLines settings c) ++ "\x7d" := by
  have hfields : c.fields.flatMap (constructorLine settings) = written (c.fields.map fun f =>
      indent ++ indent ++ fieldName settings.exportFields f.name ++ ": " ++ f.name ++ ",") :=
    flatMap_eq_written (fun f => by simp [constructorLine]) c.fields
  rw [constructorDecl, remark_eq, hfields, constructorLines, written_append, written_cons, written_cons,
    written_append, written_cons]
  unfold constructorSignature
  simp [written]

theorem isLine_of_mem_constructorLines (h : c.Plain) : ∀ line ∈ constructorLines settings c, IsLine line := by
  have hname := h.name
  have hparams : '\n' ∉ Text.join ", " (c.fields.map fun f => goParam f.name f.typeName) := by
    apply newline_notMem_join
    rw [List.forall_mem_map]
    exact fun f hf => newline_notMem_goParam (h.fieldName f hf) (h.fieldType f hf)
  have haddress : '\n' ∉ addressSign settings := by
    rw [addressSign]
    split <;> decide
  simp only [constructorLines, List.forall_mem_append, List.forall_mem_cons, List.forall_mem_map]
  refine ⟨isLine_of_mem_remarkLines (by simp [hname]), ?_, ?_, fun f hf => ?_, by decide, by simp⟩
  · exact (((((IsLine.append (by decide) hname).append (by decide)).append hparams).append (by decide)).append
      (newline_notMem_classRef h)).append (by decide)
  · exact (((IsLine.append (by decide) (by decide)).append haddress).append hname).append (by decide)
  · have hfield : '\n' ∉ fieldName settings.exportFields f.name := newline_notMem_fieldName (h.fieldName f hf)
    exact (((IsLine.append (by decide) hfield).append (by decide)).append (h.fieldName f hf)).append (by decide)

theorem no_empty_line_constructorDecl (h : c.Plain) : [] ∉ (constructorDecl settings c).pieces '\n' := by
  rw [constructorDecl_eq]
  exact no_empty_line (isLine_of_mem_constructorLines h) (by decide)

end Class

/-! ## Functions -/

/-- Whether a line is indented once, with more than blanks behind. -/
def IsInnerLine (line : Text) : Prop := ∃ c rest, line = indent ++ c :: rest ∧ isBlank c = false

/-- A block has the lines of a function: lines of a comment, the line of the signature, inner lines and a
closing brace. -/
def IsFunction (remarks : List Text) (signature block : Text) : Prop :=
  ∃ inner, block.pieces '\n' = remarks ++ (signature ++ " \x7b") :: (inner ++ ["\x7d".toList]) ∧
    ∀ line ∈ inner, IsInnerLine line

/-- The lines of a body as they are written. -/
def innerLines (body : Text) : List Text :=
  ((body.lines.map Text.trim).filter fun line => !line.isEmpty).map (indent ++ ·)

theorem bodyLines_eq (body : Text) : bodyLines body = written (innerLines body) :=
  flatMap_eq_written (fun _ => rfl) _

theorem mem_innerLines {body line : Text} (h : line ∈ innerLines body) : IsInnerLine line ∧ IsLine line := by
  obtain ⟨l, hl, rfl⟩ := List.mem_map.mp h
  rw [List.mem_filter, List.mem_map] at hl
  obtain ⟨⟨raw, hraw, rfl⟩, hne⟩ := hl
  obtain ⟨-, -, -, -, -, hhead, -⟩ := raw.exists_trim
  have hline : '\n' ∉ raw.trim := fun hmem => Text.newline_notMem_of_mem_lines raw hraw (Text.mem_of_mem_trim hmem)
  cases htrim : raw.trim with
  | nil =>
    rw [htrim] at hne
    cases hne
  | cons c rest =>
    rw [htrim] at hhead hline
    exact ⟨⟨c, rest, rfl, hhead⟩, IsLine.append (by decide) hline⟩

/-- What is written like a function has the lines of one. -/
theorem isFunction_of_lines {remarks inner : List Text} {signature : Text} (hremarks : ∀ line ∈ remarks, IsLine line)
    (hsignature : IsLine signature) (hinner : ∀ line ∈ inner, IsInnerLine line ∧ IsLine line) :
    IsFunction remarks signature (written remarks ++ signature ++ " \x7b\n" ++ written inner ++ "\x7d") := by
  have hlines : written remarks ++ signature ++ " \x7b\n" ++ written inner ++ "\x7d" =
      written (remarks ++ (signature ++ " \x7b") :: inner) ++ "\x7d" := by
    rw [written_append, written_cons]
    simp
  refine ⟨inner, ?_, fun line hline => (hinner line hline).1⟩
  rw [hlines, pieces_block _ (by decide), List.append_assoc, List.cons_append]
  rw [List.forall_mem_append, List.forall_mem_cons]
  exact ⟨hremarks, hsignature.append (by decide), fun line hline => (hinner line hline).2⟩

theorem IsFunction.no_empty_line {remarks : List Text} {signature block : Text}
    (h : IsFunction remarks signature block) (hremarks : ∀ line ∈ remarks, IsLine line) : [] ∉ block.pieces '\n' := by
  obtain ⟨inner, hpieces, hinner⟩ := h
  rw [hpieces]
  intro hmem
  rcases List.mem_append.mp hmem with hmem | hmem
  · exact (hremarks [] hmem).1 rfl
  · rcases List.mem_cons.mp hmem with hmem | hmem
    · simp at hmem
    · rcases List.mem_append.mp hmem with hmem | hmem
      · obtain ⟨c, rest, hline, -⟩ := hinner [] hmem
        cases hline
      · cases List.mem_singleton.mp hmem

theorem newline_notMem_methodSignature {settings : Settings} {c : ClassDecl} (h : c.Plain) {m : Method}
    (hm : m ∈ c.methods) : '\n' ∉ methodSignature settings c m ++ resultType m := by
  have hparams : '\n' ∉ Text.join ", " (m.params.map fun p => goParam p.name p.typeName) := by
    apply newline_notMem_join
    rw [List.forall_mem_map]
    exact fun p hp => newline_notMem_goParam (h.paramName m hm p hp) (h.paramType m hm p hp)
  have hresult : '\n' ∉ resultType m := by
    have hgo := newline_notMem_goType (h.returnType m hm)
    rw [resultType]
    split
    · exact List.not_mem_nil
    · simp [hgo]
  have hclass : '\n' ∉ classRef settings c := newline_notMem_classRef h
  have hname := h.methodName m hm
  unfold methodSignature
  simpa [receiver, hresult, hclass, hname] using hparams

theorem isFunction_methodDecl {settings : Settings} {c : ClassDecl} (h : c.Plain) {m : Method}
    (hm : m ∈ c.methods) :
    IsFunction (remarkLines settings (m.name ++ " is the Go equivalent of the Java method"))
      (methodSignature settings c m ++ resultType m) (methodDecl settings c m) := by
  have hname := h.methodName m hm
  have hremarks : ∀ line ∈ remarkLines settings (m.name ++ " is the Go equivalent of the Java method"), IsLine line :=
    isLine_of_mem_remarkLines (by simp [hname])
  have hsignature : IsLine (methodSignature settings c m ++ resultType m) :=
    ⟨by unfold methodSignature; simp, newline_notMem_methodSignature h hm⟩
  have hinner : ∀ line ∈ innerLines ((methodRecaster settings c).recast (preparedBody settings m.body)),
      IsInnerLine line ∧ IsLine line := fun _ => mem_innerLines
  have hfunction := isFunction_of_lines hremarks hsignature hinner
  rw [← bodyLines_eq, ← remark_eq] at hfunction
  unfold methodDecl
  simpa only [List.append_assoc] using hfunction

theorem isFunction_mainDecl (settings : Settings) (body : Text) :
    IsFunction [] "func main()" (mainDecl settings body) := by
  have hsignature : IsLine "func main()".toList := by decide
  have hinner : ∀ line ∈ innerLines (({ libraryCalls := settings.libraryCalls } : Recaster).recast
      (preparedBody settings body)), IsInnerLine line ∧ IsLine line := fun _ => mem_innerLines
  have hfunction := isFunction_of_lines (List.forall_mem_nil IsLine) hsignature hinner
  rw [← bodyLines_eq] at hfunction
  exact hfunction

theorem isFunction_usageExample {c : ClassDecl} (h : c.Plain) : IsFunction [] "func main()" (usageExample c) := by
  let line (t : Text) : Text := indent ++ "// " ++ t
  -- the body is comments only, so each of its lines has its two slashes behind the indentation
  have hline : ∀ t, '\n' ∉ t → IsInnerLine (line t) ∧ IsLine (line t) := fun t ht =>
    ⟨⟨'/', '/' :: ' ' :: t, rfl, by decide⟩, IsLine.append (by decide) ht⟩
  let calls : List Text := c.methods.head?.toList.map fun m => line ("instance." ++ m.name ++ "()")
  let made : Text := "instance := New" ++ c.name ++ "(" ++
    Text.join ", " (c.fields.map fun f => sampleValue f.typeName) ++ ")"
  have hcalls : c.methods.head?.toList.flatMap (fun m => exampleLine ("instance." ++ m.name ++ "()")) = written calls :=
    flatMap_eq_written (fun _ => rfl) _
  have hname := h.name
  have hsamples : '\n' ∉ Text.join ", " (c.fields.map fun f => sampleValue f.typeName) := by
    apply newline_notMem_join
    rw [List.forall_mem_map]
    exact fun f _ => newline_notMem_sampleValue f.typeName
  have hsignature : IsLine "func main()".toList := by decide
  have hinner : ∀ l ∈ line ("Example of creating and using a " ++ c.name ++ " instance") ::
      line "Uncomment and modify as needed" :: line made :: calls, IsInnerLine l ∧ IsLine l := by
    simp only [List.forall_mem_cons]
    refine ⟨hline _ (by simp [hname]), hline _ (by decide), hline _ (by simpa [made, hname] using hsamples), ?_⟩
    rw [List.forall_mem_map]
    intro m hm
    have hmethod := h.methodName m (List.mem_of_head? (Option.mem_toList.mp hm))
    exact hline _ (by simp [hmethod])
  have hfunction := isFunction_of_lines (List.forall_mem_nil IsLine) hsignature hinner
  rw [written_cons, written_cons, written_cons] at hfunction
  unfold usageExample
  rw [hcalls]
  simpa [exampleLine, line, made, written] using hfunction

/-! ## Programs -/

theorem newline_notMem_of_mem_detectImports {source : Text} : ∀ package ∈ detectImports source, '\n' ∉ package := by
  have hall : ∀ trigger ∈ importTriggers, '\n' ∉ trigger.package := by decide
  intro package hpackage
  obtain ⟨trigger, htrigger, rfl⟩ := List.mem_map.mp hpackage
  exact hall trigger (List.mem_filter.mp htrigger).1

/-- The blocks of the program for an outline: the package clause, the imports if there are any, the struct, the
constructor and the methods of a class that has fields, and the `main` of the outline or, without one, a usage
example of a class that has fields and methods. -/
theorem programBlocks_eq (settings : Settings) (source : Text) (o : Outline) :
    programBlocks settings source o =
      ["package main".toList]
        ++ (if detectImports source = [] then [] else [importBlock (detectImports source)])
        ++ (match o.class? with
          | some c =>
            if c.fields = [] then []
            else structDecl settings c :: constructorDecl settings c :: c.methods.map (methodDecl settings c)
          | none => [])
        ++ (match o.main?, o.class? with
          | some body, _ => [mainDecl settings body]
          | none, some c => if c.fields ≠ [] ∧ c.methods ≠ [] then [usageExample c] else []
          | none, none => []) := by
  have himports : (if (detectImports source).isEmpty then [] else [importBlock (detectImports source)]) =
      if detectImports source = [] then [] else [importBlock (detectImports source)] := by
    simp only [List.isEmpty_iff]
  have hclass : o.class?.toList.flatMap (classBlocks settings) = match o.class? with
      | some c =>
        if c.fields = [] then []
        else structDecl settings c :: constructorDecl settings c :: c.methods.map (methodDecl settings c)
      | none => [] := by
    cases o.class? with
    | none => rfl
    | some c =>
      by_cases hfields : c.fields = []
      · simp [classBlocks, classDecls, ClassDecl.hasFields, hfields]
      · simp [classBlocks, classDecls, ClassDecl.hasFields, hfields]
  have hmain : mainBlock settings o = match o.main?, o.class? with
      | some body, _ => [mainDecl settings body]
      | none, some c => if c.fields ≠ [] ∧ c.methods ≠ [] then [usageExample c] else []
      | none, none => [] := by
    rw [mainBlock]
    cases o.main? with
    | some body => rfl
    | none =>
      cases hclass? : o.class? with
      | none => simp [exampleClass?, hclass?]
      | some c =>
        by_cases hfields : c.fields = [] <;> by_cases hmethods : c.methods = [] <;>
          simp [exampleClass?, hclass?, ClassDecl.hasFields, ClassDecl.hasMethods, hfields, hmethods]
  rw [programBlocks, himports, hclass, hmain]

theorem no_empty_line_of_mem_programBlocks {settings : Settings} {source : Text} {o : Outline}
    (h : o.ReadFrom source) : ∀ b ∈ programBlocks settings source o, [] ∉ b.pieces '\n' := by
  have hnone : ∀ line ∈ ([] : List Text), IsLine line := by simp
  rw [programBlocks]
  simp only [List.forall_mem_append, List.forall_mem_singleton]
  refine ⟨⟨⟨by decide, ?_⟩, ?_⟩, ?_⟩
  · split
    · simp
    · rw [List.forall_mem_singleton]
      exact no_empty_line_importBlock newline_notMem_of_mem_detectImports
  · intro b hb
    obtain ⟨c, hc, hb⟩ := List.mem_flatMap.mp hb
    have hplain := (h.class? c (Option.mem_toList.mp hc)).plain
    rw [classBlocks, classDecls] at hb
    split at hb
    · rename_i decls hdecls
      split at hdecls
      · -- only a class with fields has declarations: its struct, its constructor and its methods
        obtain rfl := Option.some.inj hdecls
        simp only [List.mem_append, List.mem_cons, List.mem_map, List.not_mem_nil, or_false] at hb
        rcases hb with (rfl | rfl) | ⟨m, hm, rfl⟩
        · exact no_empty_line_structDecl hplain
        · exact no_empty_line_constructorDecl hplain
        · have hname := hplain.methodName m hm
          exact (isFunction_methodDecl hplain hm).no_empty_line (isLine_of_mem_remarkLines (by simp [hname]))
      · cases hdecls
    · cases hb
  · intro b hb
    rw [mainBlock] at hb
    split at hb
    · rw [List.mem_singleton] at hb
      exact hb ▸ (isFunction_mainDecl settings _).no_empty_line hnone
    · obtain ⟨c, hc, rfl⟩ := List.mem_map.mp hb
      have hclass : o.class? = some c := (Option.filter_eq_some_iff.mp (Option.mem_toList.mp hc)).1
      exact (isFunction_usageExample (h.class? c hclass).plain).no_empty_line hnone

/-- **The paragraphs of a draft are its blocks.** Every source text that is not blank has an outline and a draft,
and the draft without its last line feed falls into the package clause, the imports if there are any, the struct,
the constructor and the methods of a class that has fields, and one `main`: the recast one or, without one, a
usage example of a class with fields and methods. No paragraph has an empty line, and all lines of a function
between its signature and its last brace are indented once. -/
theorem draft_paragraphs (settings : Settings) (source : Text) (h : source.isBlank = false) :
    ∃ reading front, readOutline source = .ok reading ∧ draft settings source = .ok (front ++ "\n") ∧
      front.paragraphs =
        ["package main".toList]
          ++ (if detectImports source = [] then [] else [importBlock (detectImports source)])
          ++ (match reading.outline.class? with
            | some c =>
              if c.fields = [] then []
              else structDecl settings c :: constructorDecl settings c :: c.methods.map (methodDecl settings c)
            | none => [])
          ++ (match reading.outline.main?, reading.outline.class? with
            | some body, _ => [mainDecl settings body]
            | none, some c => if c.fields ≠ [] ∧ c.methods ≠ [] then [usageExample c] else []
            | none, none => []) ∧
      (∀ b ∈ front.paragraphs, [] ∉ b.pieces '\n') ∧
      (∀ c, reading.outline.class? = some c → ∀ m ∈ c.methods,
        IsFunction (remarkLines settings (m.name ++ " is the Go equivalent of the Java method"))
          (methodSignature settings c m ++ resultType m) (methodDecl settings c m)) ∧
      (∀ body, reading.outline.main? = some body → IsFunction [] "func main()" (mainDecl settings body)) ∧
      ∀ c, reading.outline.class? = some c → IsFunction [] "func main()" (usageExample c) := by
  obtain ⟨reading, hreading, hread⟩ := exists_readOutline source
  have hdraft : draft settings source = .ok (program settings source reading.outline) := by
    simp only [draft, Drafter.draft, Drafter.run, h, Bool.false_eq_true, if_false, hreading]
    rfl
  have hsolid : ∀ b ∈ programBlocks settings source reading.outline, [] ∉ b.pieces '\n' :=
    no_empty_line_of_mem_programBlocks hread
  have hparagraphs : (Text.join "\n\n" (programBlocks settings source reading.outline)).paragraphs =
      programBlocks settings source reading.outline := Text.paragraphs_join (by simp [programBlocks]) hsolid
  refine ⟨reading, _, hreading, hdraft, hparagraphs.trans (programBlocks_eq settings source reading.outline),
    by rw [hparagraphs]; exact hsolid, fun c hc m hm => isFunction_methodDecl (hread.class? c hc).plain hm,
    fun body _ => isFunction_mainDecl settings body, fun c hc => isFunction_usageExample (hread.class? c hc).plain⟩

/-- A class with empty lines between its members, in a body and in a parameter list. -/
def spacedClass : Text :=
  "public class A \x7b int n;\n\n\n void f(int\n\n a) \x7b n = a;\n\n\n n = n; \x7d \x7d"

/-- The five paragraphs of its draft, by their first lines. -/
theorem draft_paragraphs_spacedClass :
    spacedClass.isBlank = false ∧ ∃ reading front, readOutline spacedClass = .ok reading ∧
      draft {} spacedClass = .ok (front ++ "\n") ∧ (∀ b ∈ front.paragraphs, [] ∉ b.pieces '\n') ∧
      front.paragraphs.map (fun b => b.takeWhile (· ≠ '\n')) =
        ["package main".toList, "// A represents the equivalent of Java class A".toList,
         "// NewA creates a new A instance".toList, "// f is the Go equivalent of the Java method".toList,
         "func main() \x7b".toList] := by
  obtain ⟨reading, front, hreading, hdraft, -, hsolid, -⟩ := draft_paragraphs {} spacedClass (by decide)
  refine ⟨by decide, reading, front, hreading, hdraft, hsolid, ?_⟩
  have hheads : (draft {} spacedClass).toOption.map
      (fun t => (Text.paragraphs t.dropLast).map fun b => b.takeWhile (· ≠ '\n')) =
        some ["package main".toList, "// A represents the equivalent of Java class A".toList,
         "// NewA creates a new A instance".toList, "// f is the Go equivalent of the Java method".toList,
         "func main() \x7b".toList] := by decide +kernel
  rw [hdraft] at hheads
  have hfront : (front ++ "\n".toList).dropLast = front := List.dropLast_concat
  rw [← hfront]
  exact Option.some.inj hheads

end GoDraft
