import GoDraft.Draft
import GoDraft.Proofs.Body.Stages

/-!
# GoDraft — calls that stand in for others, and their imports

Rules write calls of Go packages for calls in the source: printing, changing the case of a text and reading
numbers. A package is imported when the source mentions what its calls stand in for. The two agree for seven
calls: where a function of the program has more of one of them than the body it comes from, its package is
imported. They do not agree for the calls that join texts, nor for those that read truth values.

* `StandIn`, `standIns` — a call and what it stands in for;
* `Recaster.calls_recast_le` — without that, recasting makes no such call;
* `GoFunction`, `Outline.HasFunction` — the functions of a program, with the bodies that they come from;
* `draft_imports_standIn` — more calls than in the body, and the package is imported.
-/

namespace GoDraft

open Text

/-! ## Calls and what they stand in for -/

/-- A call of a function of a package that is written for a call in the source. -/
structure StandIn where
  source : Text
  package : Text
  function : Text
  deriving DecidableEq, Repr

/-- The name that is called. -/
def StandIn.name (x : StandIn) : Text := x.package ++ '.' :: x.function

/-- The calls whose packages are imported for what they stand in for. -/
def standIns : List StandIn :=
  [⟨"System.out.println", "fmt", "Println"⟩, ⟨"System.out.print", "fmt", "Print"⟩,
   ⟨"System.out.printf", "fmt", "Printf"⟩, ⟨"toLowerCase", "strings", "ToLower"⟩,
   ⟨"toUpperCase", "strings", "ToUpper"⟩, ⟨"Integer.parseInt", "strconv", "Atoi"⟩,
   ⟨"Double.parseDouble", "strconv", "ParseFloat"⟩]

theorem isDotted_of_mem_standIns : ∀ x ∈ standIns, IsDotted x.name ∧ IsDotted x.source := by decide

theorem isFunctionOf_of_mem_standIns : ∀ x ∈ standIns, IsFunctionOf x.package x.function := by decide

/-- The rules that write calls for calls make none of what others stand in for. -/
theorem makesNoCall_source : ∀ x ∈ standIns, ∀ r ∈ libraryRules ++ printRules, r.makesNoCall x.source = true := by
  decide +kernel

/-- The rules behind them make none of the calls. -/
theorem makesNoCall_name : ∀ x ∈ standIns,
    ∀ r ∈ concatRules ++ declarationRule :: (controlRules ++ returnRule :: constructionRules),
      r.makesNoCall x.name = true := by
  decide +kernel

/-- What the rules that write calls for calls look for, rule by rule. -/
def soughtCalls : List Text :=
  ["equals", "length", "charAt", "toLowerCase", "toUpperCase", "substring", "substring", "Integer.parseInt",
   "Double.parseDouble", "Boolean.parseBoolean", "", "System.out.println", "System.out.print", "System.out.printf"]

theorem has_methodCall (method : String) : (methodCall method).Has (method.toList ++ ['(']) := by
  refine .right (.text ?_)
  rw [String.toList_append, String.toList_append, List.append_assoc]
  exact (List.suffix_append ".".toList _).isInfix

theorem has_soughtCall : ∀ y ∈ (libraryRules ++ printRules).zip soughtCalls, y.1.pattern.Has (y.2 ++ ['(']) := by
  simp only [libraryRules, printRules, soughtCalls, List.cons_append, List.nil_append, List.zip_cons_cons,
    List.zip_nil_left, List.forall_mem_cons]
  refine ⟨.left (.left (has_methodCall "equals")), .left (has_methodCall "length"),
    .left (.left (has_methodCall "charAt")), .left (has_methodCall "toLowerCase"),
    .left (has_methodCall "toUpperCase"), .left (.left (.left (.left (.left (has_methodCall "substring"))))),
    .left (.left (has_methodCall "substring")), ?_, ?_, ?_, ?_, ?_, ?_, ?_, by simp⟩
  · exact .left (.left (.text List.infix_rfl))
  · exact .left (.left (.text List.infix_rfl))
  · exact .left (.left (.text List.infix_rfl))
  · exact .left (.left (.right (.text List.infix_rfl)))
  · exact .left (.left (.text List.infix_rfl))
  · exact .left (.left (.text List.infix_rfl))
  · exact .left (.left (.text List.infix_rfl))

/-- A rule makes a call only where it looks for what the call stands in for. -/
theorem eq_or_makesNoCall : ∀ x ∈ standIns, ∀ y ∈ (libraryRules ++ printRules).zip soughtCalls,
    y.2 = x.source ∨ y.1.makesNoCall x.name = true := by
  decide +kernel

/-! ## Recasting -/

namespace Recaster

/-- The rules for fields are those of fields of the receiver with words for names. -/
def HasWordFields (r : Recaster) : Prop :=
  ∀ rule ∈ r.fieldAccess, ∃ exported field, IsWord field ∧ rule = fieldAccessRule receiver exported field

variable {x : StandIn} (hx : x ∈ standIns) {r : Recaster}

include hx

theorem callStages_standIn : ∀ s ∈ r.callStages,
    (s.MakesNoCall x.name ∨ s.pass.pattern.Has (x.source ++ ['('])) ∧ s.MakesNoCall x.source := by
  obtain ⟨hname, hsource⟩ := isDotted_of_mem_standIns x hx
  intro s hs
  obtain ⟨rule, hrule, rfl⟩ := List.mem_map.mp hs
  have hmem : rule ∈ libraryRules ++ printRules := by
    cases hlibrary : r.libraryCalls with
    | true => rwa [hlibrary, if_pos rfl] at hrule
    | false =>
      rw [hlibrary, if_neg Bool.false_ne_true, List.nil_append] at hrule
      exact List.mem_append_right _ hrule
  refine ⟨?_, Rule.makesNoCall_stage hsource (makesNoCall_source x hx rule hmem)⟩
  have hzip : ((libraryRules ++ printRules).zip soughtCalls).map Prod.fst = libraryRules ++ printRules :=
    List.map_fst_zip (Nat.le_of_eq rfl)
  rw [← hzip] at hmem
  obtain ⟨y, hy, rfl⟩ := List.mem_map.mp hmem
  rcases eq_or_makesNoCall x hx y hy with hsought | hmakes
  · exact .inr (hsought ▸ has_soughtCall y hy)
  · exact .inl (Rule.makesNoCall_stage hname hmakes)

theorem statementStages_standIn (hfields : r.HasWordFields) : ∀ s ∈ r.statementStages, s.MakesNoCall x.name := by
  obtain ⟨hname, -⟩ := isDotted_of_mem_standIns x hx
  have hrules : ∀ rule ∈ concatRules ++ declarationRule :: (controlRules ++ returnRule :: constructionRules),
      rule.stage.MakesNoCall x.name := fun rule hrule => Rule.makesNoCall_stage hname (makesNoCall_name x hx rule hrule)
  have hdeclaration := makesNoCall_name x hx declarationRule (by simp)
  intro s hs
  simp only [statementStages, List.mem_append, List.mem_cons, List.mem_map] at hs
  rcases hs with ⟨rule, hrule, rfl⟩ | rfl | ⟨rule, hrule, rfl⟩ | ⟨rule, hrule, rfl⟩
  · exact hrules rule (by simp [hrule])
  · exact makesNoCall_declarationStage hname hdeclaration
  · obtain ⟨exported, field, hfield, rfl⟩ := hfields rule hrule
    exact makesNoCall_fieldStage (isFunctionOf_of_mem_standIns x hx) hfield
  · rcases hrule with hrule | rfl | rfl | hrule
    · exact hrules rule (by simp [hrule])
    · exact makesNoCall_callRule hname
    · exact hrules returnRule (by simp)
    · exact hrules rule (by simp [hrule])

/-- **Recasting makes no call that stands in for another where the other is not there.** -/
theorem calls_recast_le (hfields : r.HasWordFields) {body : Text}
    (hparts : Stage.PartsAlong (r.callStages ++ r.statementStages) (splitStatements body))
    (hnone : calls x.source body = 0) : calls x.name (r.recast body) ≤ calls x.name body := by
  obtain ⟨hname, hsource⟩ := isDotted_of_mem_standIns x hx
  rw [Stage.partsAlong_append] at hparts
  have hsplit : calls x.source (splitStatements body) = 0 :=
    Nat.le_zero.mp (hnone ▸ calls_splitStatements_le hsource body)
  calc calls x.name (r.recast body)
      ≤ calls x.name (Stage.run (r.callStages ++ r.statementStages) (splitStatements body)) := by
        rw [recast_eq_run_stages]
        exact calls_stripTerminators_le hname _
    _ ≤ calls x.name (Stage.run r.callStages (splitStatements body)) := by
        rw [Stage.run_append]
        exact Stage.calls_run_le (statementStages_standIn hx hfields) hparts.2
    _ ≤ calls x.name (splitStatements body) :=
        Stage.calls_run_le_of_eq_zero (callStages_standIn hx) hparts.1 hsplit
    _ ≤ calls x.name body := calls_splitStatements_le hname body

end Recaster

/-! ## Functions -/

/-- A function of a program: what comes before its lines, the body that they come from and how it is recast. -/
structure GoFunction where
  head : Text
  body : Text
  recaster : Recaster

/-- The block of a function. -/
def GoFunction.block (settings : Settings) (f : GoFunction) : Text :=
  f.head ++ "\n" ++ bodyLines (f.recaster.recast (preparedBody settings f.body)) ++ "\x7d"

/-- The function for a method of a class. -/
def methodFunction (settings : Settings) (c : ClassDecl) (m : Method) : GoFunction where
  head := remark settings (m.name ++ " is the Go equivalent of the Java method") ++ methodSignature settings c m
    ++ resultType m ++ " \x7b"
  body := m.body
  recaster := methodRecaster settings c

/-- The function for the body of `main`. -/
def mainFunction (settings : Settings) (body : Text) : GoFunction where
  head := "func main() \x7b"
  body := body
  recaster := { libraryCalls := settings.libraryCalls }

/-- The functions that come from bodies: the methods of a class with fields, and `main`. -/
inductive Outline.HasFunction (settings : Settings) (o : Outline) : GoFunction → Prop where
  | method {c : ClassDecl} {m : Method} (hclass : o.class? = some c) (hfields : c.hasFields = true)
      (hmethod : m ∈ c.methods) : o.HasFunction settings (methodFunction settings c m)
  | main {body : Text} (hmain : o.main? = some body) : o.HasFunction settings (mainFunction settings body)

theorem block_methodFunction (settings : Settings) (c : ClassDecl) (m : Method) :
    (methodFunction settings c m).block settings = methodDecl settings c m := by
  unfold GoFunction.block methodFunction methodDecl
  simp

theorem block_mainFunction (settings : Settings) (body : Text) :
    (mainFunction settings body).block settings = mainDecl settings body := by
  unfold GoFunction.block mainFunction mainDecl
  simp

section Functions

variable {settings : Settings} {source : Text} {o : Outline} {f : GoFunction}

theorem Outline.HasFunction.block_mem (h : o.HasFunction settings f) :
    f.block settings ∈ programBlocks settings source o := by
  cases h with
  | @method c m hclass hfields hmethod =>
    have hblocks : methodDecl settings c m ∈ classBlocks settings c := by
      rw [classBlocks, classDecls, if_pos hfields]
      exact List.mem_append_right _ (List.mem_map_of_mem hmethod)
    rw [block_methodFunction, programBlocks, hclass]
    simp [hblocks]
  | main hmain =>
    rw [block_mainFunction, programBlocks, mainBlock, hmain]
    simp

/-- The body of a function is part of the source, and its fields have words for names. -/
theorem Outline.HasFunction.readFrom (h : o.HasFunction settings f) (ho : o.ReadFrom source) :
    f.body <:+: source ∧ f.recaster.HasWordFields := by
  cases h with
  | @method c m hclass hfields hmethod =>
    have hread := ho.class? c hclass
    refine ⟨(hread.methods m hmethod).body, fun rule hrule => ?_⟩
    obtain ⟨field, hfield, rfl⟩ := List.mem_map.mp hrule
    obtain ⟨f, hf, rfl⟩ := List.mem_map.mp hfield
    exact ⟨settings.exportFields, f.name, (hread.fields f hf).name, rfl⟩
  | main hmain => exact ⟨ho.main? _ hmain, fun _ hrule => absurd hrule List.not_mem_nil⟩

/-- The lines of a function have no more calls than its head and its recast body. -/
theorem GoFunction.calls_block_le {name : Text} (hname : IsDotted name) (f : GoFunction) :
    calls name (f.block settings) ≤
      calls name f.head + calls name (f.recaster.recast (preparedBody settings f.body)) := by
  have hlines := calls_bodyLines_le hname (f.recaster.recast (preparedBody settings f.body))
  rw [GoFunction.block, calls_append_of_not_mem name (by decide),
    calls_append_of_isCut hname (isCut_append (by decide) _), calls_append_of_not_mem name (by decide)]
  omega

end Functions

/-! ## Imports -/

/-- What a call stands in for mentions all that its package is imported for, but for the type of texts. -/
theorem exists_trigger : ∀ x ∈ standIns, ∃ trigger ∈ importTriggers, trigger.package = x.package ∧
    (∀ part ∈ trigger.allOf, part <:+: x.source ∨ x.package = "strings".toList ∧ part = "String".toList) ∧
    (trigger.oneOf = [] ∨ ∃ part ∈ trigger.oneOf, part <:+: x.source) := by
  decide

theorem package_mem_detectImports {x : StandIn} (hx : x ∈ standIns) {source : Text}
    (hstring : x.package = "strings".toList → source.hasPart "String" = true) (h : x.source ++ ['('] <:+: source) :
    x.package ∈ detectImports source := by
  obtain ⟨trigger, htrigger, hpackage, hall, hone⟩ := exists_trigger x hx
  have hpart {part : Text} (hin : part <:+: x.source) : source.hasPart part = true :=
    Text.hasPart_iff.mpr ((hin.trans (List.prefix_append x.source ['(']).isInfix).trans h)
  refine List.mem_map.mpr ⟨trigger, List.mem_filter.mpr ⟨htrigger, ?_⟩, hpackage⟩
  rw [ImportTrigger.fires, Bool.and_eq_true, List.all_eq_true, Bool.or_eq_true, List.isEmpty_iff, List.any_eq_true]
  refine ⟨fun part hmem => ?_, hone.imp_right fun ⟨part, hmem, hin⟩ => ⟨part, hmem, hpart hin⟩⟩
  rcases hall part hmem with hin | ⟨hstrings, rfl⟩
  · exact hpart hin
  · exact hstring hstrings

theorem draft_eq_program {settings : Settings} {source go : Text} {reading : OutlineReading}
    (hdraft : draft settings source = .ok go) (hreading : readOutline source = .ok reading) :
    go = program settings source reading.outline := by
  rw [draft, Drafter.draft, Drafter.run] at hdraft
  split at hdraft
  · cases hdraft
  · simp only [hreading] at hdraft
    exact (Except.ok.inj hdraft).symm

theorem infix_join {sep t : Text} : ∀ {ts : List Text}, t ∈ ts → t <:+: join sep ts
  | [u], h => by
    rw [List.mem_singleton.mp h]
    exact List.infix_rfl
  | u :: v :: ts, h => by
    rw [join_cons (List.cons_ne_nil v ts)]
    rcases List.mem_cons.mp h with rfl | h
    · exact (List.prefix_append _ _).isInfix.trans (List.prefix_append _ _).isInfix
    · exact (infix_join h).trans (List.suffix_append _ _).isInfix

/-- Taking comments out of a body puts none of some calls together. -/
def JoinsNone (settings : Settings) (names : List Text) (body : Text) : Prop :=
  ∀ name ∈ names, calls name (preparedBody settings body) ≤ calls name body

instance (settings : Settings) (names : List Text) (body : Text) : Decidable (JoinsNone settings names body) :=
  inferInstanceAs (Decidable (∀ name ∈ names, calls name (preparedBody settings body) ≤ calls name body))

/-- **A call that stands in for another brings the import of its package.** A function of a draft with more such calls
than its head and the body that it comes from has the package of the call in the import block. This is so where taking
comments out joins no calls, nothing goes on behind a match whose replacement ends open, and the type of texts is
mentioned if the call changes the case of one. -/
theorem draft_imports_standIn {settings : Settings} {source go : Text} {reading : OutlineReading} {f : GoFunction}
    {x : StandIn} (hdraft : draft settings source = .ok go) (hreading : readOutline source = .ok reading)
    (hf : reading.outline.HasFunction settings f) (hx : x ∈ standIns)
    (hstring : x.package = "strings".toList → source.hasPart "String" = true)
    (hcomments : JoinsNone settings [x.name, x.source] f.body)
    (hparts : Stage.PartsAlong (f.recaster.callStages ++ f.recaster.statementStages)
      (splitStatements (preparedBody settings f.body)))
    (hmore : calls x.name f.head + calls x.name f.body < calls x.name (f.block settings)) :
    f.block settings <:+: go ∧ importLine x.package <:+: importBlock (detectImports source) ∧
      importBlock (detectImports source) <:+: go := by
  have hread : reading.outline.ReadFrom source := by
    obtain ⟨reading', hreading', hread⟩ := exists_readOutline source
    rw [hreading] at hreading'
    exact Except.ok.inj hreading' ▸ hread
  obtain ⟨hbody, hfields⟩ := hf.readFrom hread
  obtain ⟨hname, -⟩ := isDotted_of_mem_standIns x hx
  rw [JoinsNone, List.forall_mem_cons, List.forall_mem_singleton] at hcomments
  -- without a call to stand in for, the block has no more than its head and the body
  have hcall : 0 < calls x.source f.body := by
    by_contra hnone
    have hrecast := Recaster.calls_recast_le hx hfields hparts (by omega)
    have hblock : calls x.name (f.block settings) ≤ _ := f.calls_block_le hname
    omega
  have himport : x.package ∈ detectImports source :=
    package_mem_detectImports hx hstring (((calls_pos_iff _).mp hcall).trans hbody)
  have hblocks : importBlock (detectImports source) ∈ programBlocks settings source reading.outline := by
    have hne : (detectImports source).isEmpty = false := List.isEmpty_eq_false_iff.mpr (List.ne_nil_of_mem himport)
    simp [programBlocks, hne]
  have hgo {b : Text} (hb : b ∈ programBlocks settings source reading.outline) : b <:+: go := by
    rw [draft_eq_program hdraft hreading, program]
    exact (infix_join hb).trans (List.prefix_append _ _).isInfix
  refine ⟨hgo hf.block_mem, ?_, hgo hblocks⟩
  unfold importBlock
  have hline : importLine x.package <:+: (detectImports source).flatMap importLine := by
    obtain ⟨front, rest, hsplit⟩ := List.append_of_mem himport
    rw [hsplit, List.flatMap_append, List.flatMap_cons]
    exact (List.prefix_append _ _).isInfix.trans (List.suffix_append _ _).isInfix
  exact (hline.trans (List.suffix_append _ _).isInfix).trans (List.prefix_append _ _).isInfix

/-- A method that returns a text in small letters, with a comment. -/
def taggingMethod : Method where
  returnType := "String"
  name := "show"
  params := [⟨"String", "who"⟩]
  body := "return who.toLowerCase(); /**/"

/-- A class with a field and that method. -/
def taggingClass : ClassDecl where
  name := "Tag"
  fields := [{ typeName := "int", name := "n" }]
  methods := [taggingMethod]

def taggingSource : Text :=
  "public class Tag \x7b int n; String show(String who) \x7b" ++ taggingMethod.body ++ "\x7d \x7d"

/-- The package that changes the case of texts is imported for it. -/
theorem draft_imports_standIn_taggingMethod :
    ∃ go reading, draft { keepComments := false, libraryCalls := true } taggingSource = .ok go ∧
      readOutline taggingSource = .ok reading ∧ reading.outline.class? = some taggingClass ∧
      importLine "strings" <:+: importBlock (detectImports taggingSource) ∧
      importBlock (detectImports taggingSource) <:+: go := by
  obtain ⟨reading, hreading, -⟩ := exists_readOutline taggingSource
  have hclass : reading.outline.class? = some taggingClass := by
    have hoption : (readOutline taggingSource).toOption.bind (·.outline.class?) = some taggingClass := by decide +kernel
    rwa [hreading] at hoption
  obtain ⟨go, hdraft⟩ : ∃ go, draft { keepComments := false, libraryCalls := true } taggingSource = .ok go := by
    have hsome : (draft { keepComments := false, libraryCalls := true } taggingSource).isOk = true := by decide +kernel
    cases hdraft : draft { keepComments := false, libraryCalls := true } taggingSource with
    | ok go => exact ⟨go, rfl⟩
    | error e =>
      rw [hdraft] at hsome
      cases hsome
  have hfunction : reading.outline.HasFunction { keepComments := false, libraryCalls := true }
      (methodFunction { keepComments := false, libraryCalls := true } taggingClass taggingMethod) :=
    .method hclass rfl List.mem_cons_self
  have himports := draft_imports_standIn (x := ⟨"toLowerCase", "strings", "ToLower"⟩) hdraft hreading hfunction
    (by decide) (fun _ => by decide +kernel) (by decide +kernel) (by decide +kernel) (by decide +kernel)
  exact ⟨go, reading, hdraft, hreading, hclass, himports.2⟩

/-- A program that joins a text to a value. -/
def joiningSource : Text := "class A \x7b public static void main(String[] args) \x7b String s = \"a\" + b; \x7d \x7d"

/-- Its `main` calls a package that it does not import, and its body does not. -/
theorem draft_joiningSource_lacks_import :
    (readOutline joiningSource).toOption.bind (·.outline.main?) = some "String s = \"a\" + b;".toList ∧
    calls "fmt.Sprintf" (mainFunction {} "String s = \"a\" + b;").head + calls "fmt.Sprintf" "String s = \"a\" + b;" <
      calls "fmt.Sprintf" ((mainFunction {} "String s = \"a\" + b;").block {}) ∧
    detectImports joiningSource = [] ∧
    (draft {} joiningSource).toOption = some
      "package main\n\nfunc main() \x7b\n    s := fmt.Sprintf(\"%s%v\", \"a\", b)\n\x7d\n".toList := by
  decide +kernel

end GoDraft
