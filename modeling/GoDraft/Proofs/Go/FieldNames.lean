import GoDraft.Proofs.Body.FieldAccess
import GoDraft.Proofs.Go.Blocks

/-!
# GoDraft — the Go names of fields

The struct, the constructor and the bodies of methods name the fields of a class. The names in the struct and the
constructor are read back from their lines, those in a body are what one reading of the body writes behind the
receiver.

* `namesUnder` — the names at the start of the lines that are indented so far;
* `namesUnder_structDecl`, `namesUnder_constructorDecl` — the names in the struct and in the constructor;
* `applyAll_fieldAccess_iff_hasChain` — the order of the fields matters to a body exactly where a chain meets a field
  with the name of the receiver.
-/

namespace GoDraft

/-! ## Names at the start of lines -/

/-- The name at the start of a line behind its indentation, if it is indented so far. -/
def nameUnder? (lead line : Text) : Option Text :=
  if lead <+: line then some ((line.drop lead.length).takeWhile isWordChar) else none

/-- The names at the start of the lines that are indented so far. -/
def namesUnder (lead t : Text) : List Text := (t.pieces '\n').filterMap (nameUnder? lead)

section Names

variable {settings : Settings} {c : ClassDecl}

theorem nameUnder?_append {lead name s : Text} (hname : IsWord name) (hs : stopsAt isWordChar s = true) :
    nameUnder? lead (lead ++ (name ++ s)) = some name := by
  rw [nameUnder?, if_pos (List.prefix_append _ _), List.drop_left, takeWhile_append_of_stopsAt hname hs]

theorem nameUnder?_of_head {line : Text} (h : line.head? ≠ some ' ') : nameUnder? indent line = none := by
  refine if_neg ?_
  rintro ⟨s, rfl⟩
  exact h rfl

/-- A line that is indented once only is not indented twice. -/
theorem nameUnder?_twice {line : Text} (h : line.head? ≠ some ' ') :
    nameUnder? (indent ++ indent) line = none ∧ nameUnder? (indent ++ indent) (indent ++ line) = none := by
  constructor
  · refine if_neg ?_
    rintro ⟨s, rfl⟩
    exact h rfl
  · refine if_neg fun hprefix => ?_
    obtain ⟨s, rfl⟩ := (List.prefix_append_right_inj indent).mp hprefix
    exact h rfl

theorem head?_of_mem_remarkLines {t : Text} : ∀ line ∈ remarkLines settings t, line.head? ≠ some ' ' := by
  rw [remarkLines]
  split
  · rw [List.forall_mem_singleton]
    show some '/' ≠ some ' '
    decide
  · simp

theorem filterMap_eq_map {α : Type} {f : α → Text} {g : Text → Option Text} {h : α → Text} {as : List α}
    (hg : ∀ a ∈ as, g (f a) = some (h a)) : (as.map f).filterMap g = as.map h := by
  rw [List.filterMap_map, ← List.filterMap_eq_map]
  exact List.filterMap_congr hg

/-- The struct names the fields by their Go names, in their order. -/
theorem namesUnder_structDecl (hplain : c.Plain) (hfields : ∀ f ∈ c.fields, IsFieldName f.name) :
    namesUnder indent (structDecl settings c) = (c.fields.map Field.name).map (fieldName settings.exportFields) := by
  have hlines : ∀ f ∈ c.fields, nameUnder? indent (indent ++ fieldName settings.exportFields f.name ++ " " ++
      goType f.typeName ++ " // was " ++ f.typeName) = some (fieldName settings.exportFields f.name) := by
    intro f hf
    have hword := ((hfields f hf).fieldName settings.exportFields).plain.isWord
    simp only [List.append_assoc]
    exact nameUnder?_append hword rfl
  have hremarks : (remarkLines settings (c.name ++ " represents the equivalent of Java class " ++ c.name)).filterMap
      (nameUnder? indent) = [] :=
    List.filterMap_eq_nil_iff.mpr fun line hline => nameUnder?_of_head (head?_of_mem_remarkLines line hline)
  have htype : nameUnder? indent ("type " ++ c.name ++ " struct \x7b") = none := by
    apply nameUnder?_of_head
    show some 't' ≠ some ' '
    decide
  have hend : [("\x7d" : Text)].filterMap (nameUnder? indent) = [] := by decide
  rw [namesUnder, structDecl_eq, pieces_block (isLine_of_mem_structLines hplain) (by decide), List.filterMap_append, hend,
    structLines, List.filterMap_append, hremarks, List.filterMap_cons_none htype, filterMap_eq_map hlines]
  simp

/-- The constructor names the fields by their Go names, in their order. -/
theorem namesUnder_constructorDecl (hplain : c.Plain) (hfields : ∀ f ∈ c.fields, IsFieldName f.name) :
    namesUnder (indent ++ indent) (constructorDecl settings c) =
      (c.fields.map Field.name).map (fieldName settings.exportFields) := by
  have hlines : ∀ f ∈ c.fields, nameUnder? (indent ++ indent) (indent ++ indent ++
      fieldName settings.exportFields f.name ++ ": " ++ f.name ++ ",") = some (fieldName settings.exportFields f.name) := by
    intro f hf
    have hword := ((hfields f hf).fieldName settings.exportFields).plain.isWord
    have hline : nameUnder? (indent ++ indent) (indent ++ indent ++ (fieldName settings.exportFields f.name ++
        (": " ++ (f.name ++ ",")))) = some (fieldName settings.exportFields f.name) := nameUnder?_append hword rfl
    simpa only [List.append_assoc] using hline
  have hremarks : (remarkLines settings ("New" ++ c.name ++ " creates a new " ++ c.name ++ " instance")).filterMap
      (nameUnder? (indent ++ indent)) = [] :=
    List.filterMap_eq_nil_iff.mpr fun line hline => (nameUnder?_twice (head?_of_mem_remarkLines line hline)).1
  have hsignature : nameUnder? (indent ++ indent) (constructorSignature settings c) = none := by
    refine (nameUnder?_twice ?_).1
    show some 'f' ≠ some ' '
    decide
  have hreturn : nameUnder? (indent ++ indent) (indent ++ "return " ++ addressSign settings ++ c.name ++ "\x7b") = none := by
    simp only [List.append_assoc]
    refine (nameUnder?_twice ?_).2
    show some 'r' ≠ some ' '
    decide
  have hclose : [indent ++ ("\x7d" : Text)].filterMap (nameUnder? (indent ++ indent)) = [] := by decide
  have hend : [("\x7d" : Text)].filterMap (nameUnder? (indent ++ indent)) = [] := by decide
  rw [namesUnder, constructorDecl_eq, pieces_block (isLine_of_mem_constructorLines hplain) (by decide),
    List.filterMap_append, hend, constructorLines, List.filterMap_append, hremarks,
    List.filterMap_cons_none hsignature, List.filterMap_cons_none hreturn, List.filterMap_append, hclose,
    filterMap_eq_map hlines]
  simp

end Names

/-! ## Names in bodies -/

/-- **The fields of the receiver are replaced in one reading**, whatever their order and however often a field is
listed, exactly where no chain meets a field with the name of the receiver. The names they become are those in the
struct and in the constructor. -/
theorem applyAll_fieldAccess_iff_hasChain (settings : Settings) {c : ClassDecl}
    (hfields : ∀ f ∈ c.fields, IsFieldName f.name) :
    (∀ t : Text, (∀ fields : List Field, (∀ n, n ∈ fields.map Field.name ↔ n ∈ c.fields.map Field.name) →
        Rule.applyAll (methodRecaster settings { c with fields }).fieldAccess t =
          throughReceiver (c.fields.map Field.name) settings.exportFields t) ↔
      (receiver ∈ c.fields.map Field.name → hasChain (c.fields.map Field.name) none t = false)) ∧
    (c.Plain →
      namesUnder indent (structDecl settings c) = (c.fields.map Field.name).map (fieldName settings.exportFields) ∧
      namesUnder (indent ++ indent) (constructorDecl settings c) =
        (c.fields.map Field.name).map (fieldName settings.exportFields)) := by
  have hnames : ∀ n ∈ c.fields.map Field.name, IsFieldName n := by
    rw [List.forall_mem_map]
    exact hfields
  refine ⟨fun t => ⟨fun h hreceiver => ?_, fun h fields hsame => ?_⟩, fun hplain =>
    ⟨namesUnder_structDecl hplain hfields, namesUnder_constructorDecl hplain hfields⟩⟩
  · -- the rule of the receiver once more at the end would find what the others have made of a chain
    obtain ⟨f, hf, hfname⟩ := List.mem_map.mp hreceiver
    have honce := h c.fields fun _ => Iff.rfl
    have htwice := h (c.fields ++ [f]) fun n => by
      rw [List.map_append, List.mem_append, List.map_singleton, List.mem_singleton]
      exact or_iff_left_of_imp fun hn => hn ▸ List.mem_map_of_mem hf
    have hagain : Rule.applyAll (methodRecaster settings { c with fields := c.fields ++ [f] }).fieldAccess t =
        (fieldAccessRule receiver settings.exportFields receiver).apply
          (Rule.applyAll (methodRecaster settings { c with fields := c.fields }).fieldAccess t) := by
      show List.foldl _ t (((c.fields ++ [f]).map Field.name).map (fieldAccessRule receiver settings.exportFields)) = _
      rw [List.map_append, List.map_append, List.foldl_append, List.map_singleton, List.map_singleton, hfname]
      rfl
    rw [hagain, honce, apply_fieldAccessRule isFieldName_receiver] at htwice
    rw [Bool.eq_false_iff]
    intro hchain
    have hshorter := length_throughReceiverFrom_lt settings.exportFields hnames
      (List.forall_mem_singleton.mpr isFieldName_receiver) (List.mem_singleton_self receiver) none t hchain
    exact absurd (congrArg List.length htwice) (Nat.ne_of_lt hshorter)
  · have hnames' : ∀ n ∈ fields.map Field.name, IsFieldName n := fun n hn => hnames n ((hsame n).mp hn)
    have hchain : receiver ∈ fields.map Field.name → hasChain (fields.map Field.name) none t = false := by
      rw [hsame, hasChain_names_congr hsame]
      exact h
    exact (applyAll_fieldAccessRule hnames' t hchain).trans
      (throughReceiverFrom_names_congr hsame t none 0)

/-- A class with fields whose names begin with one another, down to the name of the receiver. -/
def summedClass : ClassDecl :=
  { name := "A"
    fields := [{ typeName := "int", name := "s" }, { typeName := "long", name := "sums" },
      { typeName := "int", name := "sum" }] }

theorem applyAll_fieldAccess_iff_hasChain_summedClass :
    (∀ f ∈ summedClass.fields, IsFieldName f.name) ∧ summedClass.Plain ∧
    hasChain (summedClass.fields.map Field.name) none "this.sums = this.sum + that.this.s" = false ∧
    (∀ fields : List Field, (∀ n, n ∈ fields.map Field.name ↔ n ∈ summedClass.fields.map Field.name) →
      Rule.applyAll (methodRecaster {} { summedClass with fields }).fieldAccess "this.sums = this.sum + that.this.s" =
        "s.Sums = s.Sum + that.s.S".toList) ∧
    namesUnder indent (structDecl {} summedClass) = ["S", "Sums", "Sum"].map String.toList := by
  have hfields : ∀ f ∈ summedClass.fields, IsFieldName f.name := by decide
  have hplain : summedClass.Plain :=
    ⟨by decide, by decide, by decide, by decide, by decide, by decide, by decide⟩
  have hchain : hasChain (summedClass.fields.map Field.name) none "this.sums = this.sum + that.this.s" = false := by
    decide
  obtain ⟨hbody, hdecls⟩ := applyAll_fieldAccess_iff_hasChain {} hfields
  refine ⟨hfields, hplain, hchain, fun fields hsame => ?_, (hdecls hplain).1.trans (by decide)⟩
  exact ((hbody _).mpr (fun _ => hchain) fields hsame).trans (by decide)

/-- A class with a field that has the name of the receiver. -/
def receiverClass : ClassDecl :=
  { name := "A", fields := [{ typeName := "int", name := "x" }, { typeName := "int", name := "s" }] }

/-- The order of the fields matters where a chain meets a field with the name of the receiver. -/
theorem applyAll_fieldAccess_chain :
    Rule.applyAll (methodRecaster {} receiverClass).fieldAccess "this.this.x" = "s.S.X".toList ∧
    throughReceiver (receiverClass.fields.map Field.name) true "this.this.x" = "this.s.X".toList ∧
    Rule.applyAll (methodRecaster {} { receiverClass with fields := receiverClass.fields.reverse }).fieldAccess
      "this.this.x" = "this.s.X".toList := by
  decide

end GoDraft
