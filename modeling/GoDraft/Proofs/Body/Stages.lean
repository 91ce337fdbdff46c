import GoDraft.Proofs.Body.Calls
import GoDraft.Proofs.Body.Passes
import GoDraft.Proofs.Java.Reading
import GoDraft.Proofs.Text.Uppercase

/-!
# GoDraft — the passes for a body and the calls they make

A pass whose replacements end in a group can put two texts side by side that stood apart: what the group holds,
and what stands behind the match. Where nothing goes on behind such matches, a pass makes no call, unless it is
one that writes the call. Passes one after another make none either.

* `Stage`, `Stage.PartsAlong` — passes, and texts in which they put nothing together;
* `Stage.MakesNoCall`, `Stage.calls_run_le` — what one stage keeps, a run of stages keeps;
* `Recaster.recast_eq_run_stages` — recasting is a run of stages, those that write calls and those for statements;
* `makesNoCall_fieldStage` — a field of the receiver is no package.
-/

namespace GoDraft

open Text

/-! ## Stages -/

/-- A pass, and whether what it writes ends open, so that it may go on behind the match. -/
structure Stage where
  pass : Pass
  isOpen : Bool

namespace Stage

/-- Nothing goes on behind the matches of a stage that ends open. -/
def Parts (s : Stage) (t : Text) : Prop :=
  s.isOpen = true → ∀ m ∈ s.pass.pattern.findAll t, m.span.stop.rest.goesOn = false

instance (s : Stage) (t : Text) : Decidable (s.Parts t) :=
  inferInstanceAs (Decidable (s.isOpen = true → ∀ m ∈ s.pass.pattern.findAll t, m.span.stop.rest.goesOn = false))

/-- Stages one after another. -/
def run (stages : List Stage) (t : Text) : Text := Pass.run (stages.map Stage.pass) t

/-- Each of some stages one after another finds a text in which it puts nothing together. -/
def PartsAlong : List Stage → Text → Prop
  | [], _ => True
  | s :: stages, t => s.Parts t ∧ PartsAlong stages (s.pass.apply t)

instance decidablePartsAlong : ∀ (stages : List Stage) (t : Text), Decidable (PartsAlong stages t)
  | [], _ => inferInstanceAs (Decidable True)
  | s :: stages, t =>
    have := decidablePartsAlong stages (s.pass.apply t)
    inferInstanceAs (Decidable (s.Parts t ∧ PartsAlong stages (s.pass.apply t)))

theorem run_append (stages stages' : List Stage) (t : Text) :
    run (stages ++ stages') t = run stages' (run stages t) := by
  rw [run, List.map_append, Pass.run_append]
  rfl

theorem partsAlong_append {stages stages' : List Stage} {t : Text} :
    PartsAlong (stages ++ stages') t ↔ PartsAlong stages t ∧ PartsAlong stages' (run stages t) := by
  induction stages generalizing t with
  | nil => exact (and_iff_right trivial).symm
  | cons s stages ih =>
    rw [List.cons_append, PartsAlong, PartsAlong, ih, and_assoc]
    rfl

/-- A stage makes no call of a name where it puts nothing together. -/
def MakesNoCall (s : Stage) (name : Text) : Prop := ∀ t, s.Parts t → calls name (s.pass.apply t) ≤ calls name t

variable {name : Text} {stages : List Stage} {t : Text}

/-- **What no stage makes, no run of stages makes.** -/
theorem calls_run_le (h : ∀ s ∈ stages, s.MakesNoCall name) (ht : PartsAlong stages t) :
    calls name (run stages t) ≤ calls name t := by
  induction stages generalizing t with
  | nil => exact Nat.le_refl _
  | cons s stages ih =>
    rw [List.forall_mem_cons] at h
    exact (ih h.2 ht.2).trans (h.1 t ht.1)

/-- A run in which some stages write calls for others makes none where there is nothing to write them for. -/
theorem calls_run_le_of_eq_zero {other : Text}
    (h : ∀ s ∈ stages, (s.MakesNoCall name ∨ s.pass.pattern.Has (other ++ ['('])) ∧ s.MakesNoCall other)
    (ht : PartsAlong stages t) (hother : calls other t = 0) : calls name (run stages t) ≤ calls name t := by
  induction stages generalizing t with
  | nil => exact Nat.le_refl _
  | cons s stages ih =>
    rw [List.forall_mem_cons] at h
    obtain ⟨⟨hmakes, hkeeps⟩, hstages⟩ := h
    have hnone : calls other (s.pass.apply t) = 0 := Nat.le_zero.mp (hother ▸ hkeeps t ht.1)
    have hstep : calls name (s.pass.apply t) ≤ calls name t := by
      rcases hmakes with hmakes | hhas
      · exact hmakes t ht.1
      · have habsent : ¬ other ++ ['('] <:+: t := by
          rw [← calls_pos_iff, hother]
          exact Nat.lt_irrefl 0
        rw [Pass.apply, Pattern.replaceAll_of_not_infix hhas habsent]
    exact (ih hstages ht.2 hnone).trans hstep

end Stage

/-- The stage of a rule. -/
def Rule.stage (r : Rule) : Stage := ⟨r.pass, !r.template.isClosed⟩

/-- The stage of typed declarations. -/
def declarationStage : Stage := ⟨declarationPass, true⟩

/-- The stage of a rule for a field, which is whole words. -/
def Rule.fieldStage (r : Rule) : Stage := ⟨r.pass, false⟩

namespace Recaster

/-- The stages that write calls for calls. -/
def callStages (r : Recaster) : List Stage :=
  ((if r.libraryCalls then libraryRules else []) ++ printRules).map Rule.stage

/-- The other stages. -/
def statementStages (r : Recaster) : List Stage :=
  concatRules.map Rule.stage ++ declarationStage :: (r.fieldAccess.map Rule.fieldStage ++
    (controlRules ++ callRule :: returnRule :: constructionRules).map Rule.stage)

/-- **Recasting a body is a run of stages** between two readings of its characters. -/
theorem recast_eq_run_stages (r : Recaster) (body : Text) :
    r.recast body = stripTerminators (Stage.run (r.callStages ++ r.statementStages) (splitStatements body)) := by
  have hrules (rules : List Rule) : (rules.map Rule.stage).map Stage.pass = rules.map Rule.pass := List.map_map
  have hfields : (r.fieldAccess.map Rule.fieldStage).map Stage.pass = r.fieldAccess.map Rule.pass := List.map_map
  unfold recast callStages statementStages Stage.run
  simp only [List.map_append, List.map_cons, hrules, hfields, declarationStage, Pass.run_append, Pass.run_cons,
    Pass.run_map_pass]
  cases r.libraryCalls <;> rfl

end Recaster

/-! ## Rules -/

variable {name : Text} (hname : IsDotted name)

include hname

theorem Rule.makesNoCall_stage {r : Rule} (h : r.makesNoCall name = true) : r.stage.MakesNoCall name := by
  intro t ht
  have hfound : ∀ m ∈ r.pattern.findAll t, r.template.isClosed = true ∨ m.span.stop.rest.goesOn = false := by
    intro m hm
    cases hclosed : r.template.isClosed with
    | true => exact .inl rfl
    | false => exact .inr (ht (by rw [Rule.stage, hclosed]; rfl) m hm)
  exact Pattern.calls_replaceAll_le (Q := fun _ _ => True)
    (R := fun s => r.template.isClosed = true ∨ s.goesOn = false) trivial (fun _ _ _ _ => trivial)
    (fun _ _ m s a hm _ => ⟨trivial, fun hs => r.calls_fill_le hname h hm a hs⟩) hfound

omit hname in
/-- What the rule for calls writes is the match without its semicolon. -/
theorem text_eq_of_callRule {k : Cursor} {m : Match} (hm : callRule.pattern.matchAt? k = some m) :
    m.span.text = callRule.template.fill m ++ [';'] := by
  obtain ⟨-, -, g, hfits, hgroup⟩ := Pattern.fits_of_matchAt? hm
  have hspelled : callRule.pattern.SpelledBy [.group 1 Pattern.word, .text ".", .group 2 Pattern.word, .text "(",
      .group 3 Pattern.someOfLine, .text ");"] :=
    (((((Pattern.SpelledBy.group rfl).seq (.text _)).seq (.group rfl)).seq (.text _)).seq (.group rfl)).seq (.text _)
  generalize m.span.text = s at hfits
  cases hspelled s g hfits with
  | group _ rest => cases rest with
    | text _ rest => cases rest with
      | group _ rest => cases rest with
        | text _ rest => cases rest with
          | group _ rest => cases rest with
            | text _ rest =>
              cases rest
              have hfill : callRule.template.fill m =
                  m.group 1 ++ (".".toList ++ (m.group 2 ++ ("(".toList ++ (m.group 3 ++ (")".toList ++ []))))) := rfl
              rw [hfill, hgroup 0, hgroup 1, hgroup 2]
              simp [Notes.text, List.lookup]

theorem makesNoCall_callRule : callRule.stage.MakesNoCall name := by
  intro t _
  refine Pattern.calls_replaceAll_le (Q := fun _ _ => True) (R := fun _ => True) trivial (fun _ _ _ _ => trivial)
    (fun _ _ m s a hm _ => ⟨trivial, fun _ => ?_⟩) (fun _ _ => trivial)
  show calls name (a ++ (callRule.template.fill m ++ s)) ≤ _
  have hcut : isCut (a ++ callRule.template.fill m) = true := isCut_append (Template.isCut_fill (by decide)) a
  have hrest := calls_le_cons name ';' s
  rw [text_eq_of_callRule hm, List.append_assoc, List.singleton_append, ← List.append_assoc, ← List.append_assoc,
    calls_append_of_isCut hname hcut, calls_append_of_isCut hname hcut]
  omega

/-- A declaration loses its type and the blanks at its end. -/
theorem calls_recastDeclaration_le (h : declarationRule.makesNoCall name = true) {k : Cursor} {m : Match}
    (hm : declarationPattern.matchAt? k = some m) (a : Text) {b : Text} (hb : b.goesOn = false) :
    calls name (a ++ (recastDeclaration m ++ b)) ≤ calls name (a ++ (m.span.text ++ b)) := by
  unfold recastDeclaration
  split
  · exact Nat.le_refl _
  · have hfill := declarationRule.calls_fill_le hname h hm a (.inr hb)
    have hparts : declarationRule.template.fill m =
        m.group 1 ++ m.group 2 ++ m.group 4 ++ " := ".toList ++ m.group 5 := by
      simp [declarationRule, Template.fill]
    have htrim : (m.group 5).trimEnd <+: m.group 5 := ⟨_, trimEnd_append_takeWhile _⟩
    have hless := calls_le_of_infix name
      ((List.prefix_append_right_inj (a ++ (m.group 1 ++ m.group 2 ++ m.group 4 ++ " := ".toList))).mpr htrim).isInfix
    rw [hparts, ← List.append_assoc, calls_append_of_goesOn hname hb, ← List.append_assoc] at hfill
    rw [← List.append_assoc, calls_append_of_goesOn hname hb, ← List.append_assoc]
    omega

theorem makesNoCall_declarationStage (h : declarationRule.makesNoCall name = true) :
    declarationStage.MakesNoCall name := by
  intro t ht
  exact Pattern.calls_replaceAll_le (Q := fun _ _ => True) (R := fun s => s.goesOn = false) trivial
    (fun _ _ _ _ => trivial) (fun _ _ m s a hm _ => ⟨trivial, fun hs => calls_recastDeclaration_le hname h hm a hs⟩)
    (ht rfl)

omit hname

/-! ## Fields of the receiver -/

/-- A function of a package whose name is in small letters and is not that of the receiver. -/
structure IsFunctionOf (package function : Text) : Prop where
  nonempty : package ≠ []
  small : ∀ c ∈ package, c.isLower = true
  not_receiver : package ≠ receiver
  dotless : '.' ∉ function

instance (package function : Text) : Decidable (IsFunctionOf package function) :=
  decidable_of_iff (package ≠ [] ∧ (∀ c ∈ package, c.isLower = true) ∧ package ≠ receiver ∧ '.' ∉ function)
    ⟨fun ⟨h₁, h₂, h₃, h₄⟩ => ⟨h₁, h₂, h₃, h₄⟩, fun ⟨h₁, h₂, h₃, h₄⟩ => ⟨h₁, h₂, h₃, h₄⟩⟩

theorem notMem_fieldName {x : Char} (hword : isWordChar x = false) (hform : ¬ IsUpperForm x) {exported : Bool}
    {field : Text} (h : IsWord field) : x ∉ fieldName exported field := by
  have hfield : x ∉ field := fun hmem => by
    rw [h x hmem] at hword
    cases hword
  unfold fieldName
  split
  · cases field with
    | nil => exact List.not_mem_nil
    | cons c rest =>
      rw [List.mem_cons, not_or] at hfield
      show x ∉ uppercase c ++ rest
      rw [List.mem_append, not_or]
      refine ⟨fun hmem => ?_, hfield.2⟩
      rcases mem_uppercase hmem with ⟨hself, -⟩ | hupper
      · exact hfield.1 hself
      · exact hform hupper
  · exact hfield

/-- The small letters at the end of a field's name stay. -/
theorem suffix_of_suffix_fieldName {x field : Text} {exported : Bool} (hx : ∀ c ∈ x, c.isLower = true)
    (h : x <:+ fieldName exported field) : x <:+ field := by
  unfold fieldName at h
  split at h
  · cases field with
    | nil => exact h
    | cons c rest =>
      rcases suffix_append_iff.mp (show x <:+ uppercase c ++ rest from h) with hrest | ⟨z, hz, hupper, rfl⟩
      · exact hrest.trans (List.suffix_cons c rest)
      · -- an upper-case form has no small letter
        obtain ⟨d, z, rfl⟩ := List.exists_cons_of_ne_nil hz
        have hd : d.isLower = true := hx d (by simp)
        rw [isLower_of_mem_uppercase (hupper.subset List.mem_cons_self)] at hd
        cases hd
  · exact h

theorem Template.fill_ofText {t : Text} (h : '$' ∉ t) (m : Match) : (ofText t).fill m = t := by
  unfold ofText
  induction t with
  | nil => rfl
  | cons c t ih =>
    rw [List.mem_cons, not_or] at h
    have hcons : fill (.text [c] :: ofTextFrom 0 t) m = c :: fill (ofTextFrom 0 t) m := rfl
    rw [ofTextFrom, if_neg (Ne.symm h.1), hcons, ih h.2]

theorem fill_fieldAccessRule {exported : Bool} {field : Text} (hfield : IsWord field) (m : Match) :
    (fieldAccessRule receiver exported field).template.fill m = receiver ++ '.' :: fieldName exported field := by
  have hdollar : '$' ∉ receiver ++ '.' :: fieldName exported field := by
    have hfree : '$' ∉ fieldName exported field := notMem_fieldName (by decide) (by decide) hfield
    simpa [receiver] using hfree
  exact Template.fill_ofText hdollar m

/-- A field stands behind no character of a word, and is matched with the `this.` before it. -/
theorem of_matchAt?_fieldAccessRule {exported : Bool} {field : Text} {b : Option Char} {offset : Nat} {t : Text}
    {m : Match} (hm : (fieldAccessRule receiver exported field).pattern.matchAt? ⟨b, offset, t⟩ = some m) :
    b.any isWordChar = false ∧ m.span.text = "this.".toList ++ field := by
  obtain ⟨-, hrest, g, hfits, -⟩ := Pattern.fits_of_matchAt? hm
  obtain ⟨_, _, _, _, ⟨_, _, _, _, ⟨_, _, _, _, ⟨rfl, -⟩, hthis, rfl, -⟩, hfield, rfl, -⟩, ⟨rfl, -⟩, htext, -⟩ := hfits
  have hspan : m.span.text = "this.".toList ++ field := by
    rw [htext, (Pattern.fits_text hthis).1, (Pattern.fits_text hfield).1]
    simp
  refine ⟨?_, hspan⟩
  by_contra hword
  -- between a character of a word and the `t` of `this` there is no edge
  have hedge : View.isWordEdge ⟨b, t, []⟩ = false := by
    have hhead : t.head? = some 't' := by
      rw [show t = m.span.text ++ m.span.stop.rest from hrest, hspan]
      rfl
    rw [View.isWordEdge, hhead, eq_true_of_ne_false hword]
    decide
  have hnone : (fieldAccessRule receiver exported field).pattern.matchAt? ⟨b, offset, t⟩ = none := by
    rw [Pattern.matchAt?_eq_none_iff]
    apply Pattern.views_seq_of_eq_nil
    apply Pattern.views_seq_of_eq_nil
    apply Pattern.views_seq_of_eq_nil
    rw [Pattern.views, hedge]
    rfl
  rw [hnone] at hm
  cases hm

section Field

variable {package function field a : Text} {exported : Bool}

theorem isWordChar_of_isLower {c : Char} (h : c.isLower = true) : isWordChar c = true := by
  have hcode : c.toNat < 128 := by
    rw [Char.isLower, Bool.and_eq_true, decide_eq_true_eq, decide_eq_true_eq] at h
    exact Nat.lt_of_le_of_lt (UInt32.le_iff_toNat_le.mp h.2) (by decide)
  rw [isWordChar, if_pos hcode]
  simp [Char.isAlphanum, Char.isAlpha, h]

theorem IsFunctionOf.dot_notMem (h : IsFunctionOf package function) : '.' ∉ package := fun hdot =>
  absurd (h.small '.' hdot) (by decide)

/-- Where no word ends, no package ends with the receiver behind. -/
theorem IsFunctionOf.not_suffix (h : IsFunctionOf package function) (ha : a.getLast?.any isWordChar = false) :
    ¬ package <:+ a ++ receiver := by
  intro hsuffix
  have hlength : receiver.length = 1 := rfl
  rcases suffix_append_iff.mp hsuffix with hshort | ⟨q, hq, hback, hpackage⟩
  · have hpos := List.length_pos_iff.mpr h.nonempty
    exact h.not_receiver (hshort.eq_of_length (by have := hshort.length_le; omega))
  · obtain ⟨q, d, rfl⟩ := (List.eq_nil_or_concat' q).resolve_left hq
    obtain ⟨front, rfl⟩ := hback
    have hd : d.isLower = true := h.small d (by rw [hpackage]; simp)
    rw [← List.append_assoc, List.getLast?_concat, Option.any_some, isWordChar_of_isLower hd] at ha
    cases ha

/-- The start of a function of a package that stands before a place does not reach back to the receiver. -/
theorem suffix_this_of_suffix_receiver (h : IsFunctionOf package function) (hfield : IsWord field)
    (ha : a.getLast?.any isWordChar = false) {x y : Text} (hxy : x ++ y = package ++ '.' :: function)
    (hx : x <:+ a ++ receiver ++ '.' :: fieldName exported field) : x <:+ a ++ "this" ++ '.' :: field := by
  have hdotless : '.' ∉ fieldName exported field := notMem_fieldName (by decide) (by decide) hfield
  rcases suffix_append_iff.mp hx with hname | ⟨z, -, hback, rfl⟩
  · rcases List.suffix_cons_iff.mp hname with rfl | hname
    · -- a package does not begin with a dot
      obtain ⟨c, rest, rfl⟩ := List.exists_cons_of_ne_nil h.nonempty
      rw [List.cons_append, List.cons_append, List.cons.injEq] at hxy
      exact absurd (hxy.1 ▸ List.mem_cons_self) h.dot_notMem
    · have hpackage : x <+: package := by
        rcases List.prefix_or_prefix_of_prefix ⟨y, hxy⟩ (List.prefix_append package _) with hle | ⟨w, rfl⟩
        · exact hle
        · cases w with
          | nil => simp
          | cons d w =>
            rw [List.append_assoc, List.append_cancel_left_eq, List.cons_append, List.cons.injEq] at hxy
            exact absurd (hname.subset (by simp [hxy.1])) hdotless
      have hsmall : x <:+ field := suffix_of_suffix_fieldName (fun c hc => h.small c (hpackage.subset hc)) hname
      exact hsmall.trans ((List.suffix_cons '.' field).trans (List.suffix_append _ _))
  · rw [List.append_assoc, List.cons_append] at hxy
    obtain ⟨rfl, -⟩ := (List.append_cons_inj_of_notMem h.dot_notMem h.dotless).mp hxy.symm
    exact absurd hback (h.not_suffix ha)

/-- A field of the receiver makes no call of a function of a package. -/
theorem calls_field_le (h : IsFunctionOf package function) (hfield : IsWord field)
    (ha : a.getLast?.any isWordChar = false) (b : Text) :
    calls (package ++ '.' :: function) (a ++ (receiver ++ '.' :: fieldName exported field ++ b)) ≤
      calls (package ++ '.' :: function) (a ++ ("this" ++ '.' :: field ++ b)) := by
  have hreceiver : '(' ∉ receiver ++ '.' :: fieldName exported field := by
    have hparen : '(' ∉ fieldName exported field := notMem_fieldName (by decide) (by decide) hfield
    simpa [receiver] using hparen
  have hthis : '(' ∉ "this".toList ++ '.' :: field := by
    have hparen : '(' ∉ field := fun hmem => absurd (hfield _ hmem) (by decide)
    simpa using hparen
  -- the calls in question end behind the field
  have hbehind : callsBehind (package ++ '.' :: function) (a ++ (receiver ++ '.' :: fieldName exported field)) b ≤
      callsBehind (package ++ '.' :: function) (a ++ ("this" ++ '.' :: field)) b := by
    apply List.countP_mono_left
    intro front hfront hcall
    rcases suffix_append_iff.mp (of_decide_eq_true hcall) with hinside | ⟨x, -, hx, heq⟩
    · exact decide_eq_true (hinside.trans (List.suffix_append _ front))
    · obtain ⟨front, d, rfl⟩ := (List.eq_nil_or_concat' front).resolve_left (mem_tail_inits hfront).1
      rw [← List.append_assoc] at heq hx
      obtain ⟨hxy, -⟩ := List.append_inj' heq rfl
      obtain ⟨w, hw⟩ := suffix_this_of_suffix_receiver h hfield ha hxy.symm hx
      refine decide_eq_true ⟨w, ?_⟩
      rw [heq, ← List.append_assoc a, ← hw]
      simp
  have hleft := calls_append (package ++ '.' :: function) (a ++ (receiver ++ '.' :: fieldName exported field)) b
  have hright := calls_append (package ++ '.' :: function) (a ++ ("this" ++ '.' :: field)) b
  rw [calls_append_of_not_mem _ hreceiver, List.append_assoc a] at hleft
  rw [calls_append_of_not_mem _ hthis, List.append_assoc a] at hright
  omega

/-- A field of the receiver is no package. -/
theorem makesNoCall_fieldStage (h : IsFunctionOf package function) (hfield : IsWord field) :
    (fieldAccessRule receiver exported field).fieldStage.MakesNoCall (package ++ '.' :: function) := by
  intro t _
  refine Pattern.calls_replaceAll_le
    (Q := fun b a => b.any isWordChar = false → a.getLast?.any isWordChar = false) (R := fun _ => True)
    (fun _ => rfl) (fun b a c _ hc => ?_) (fun b offset m s a hm ha => ?_) (fun _ _ => trivial)
  · rwa [List.getLast?_concat]
  · have hmatch : (fieldAccessRule receiver exported field).pattern.matchAt? ⟨b, offset, m.span.text ++ s⟩ =
        some m := hm
    obtain ⟨hb, htext⟩ := of_matchAt?_fieldAccessRule hmatch
    show (_ → (a ++ (fieldAccessRule receiver exported field).template.fill m).getLast?.any isWordChar = false) ∧
      (True → calls _ (a ++ ((fieldAccessRule receiver exported field).template.fill m ++ s)) ≤ _)
    rw [fill_fieldAccessRule hfield, htext]
    refine ⟨fun hlast => ?_, fun _ => calls_field_le h hfield (ha hb) s⟩
    -- a field that is there ends with a character of a word
    rcases List.eq_nil_or_concat' field with rfl | ⟨front, c, rfl⟩
    · have hnil : fieldName exported [] = [] := by cases exported <;> rfl
      rw [hnil, ← List.append_assoc, List.getLast?_concat]
      decide
    · have hc : isWordChar c = true := hfield c (by simp)
      rw [← List.append_assoc, lastOf, List.getLast?_concat, Option.some_or, Option.any_some, hc] at hlast
      cases hlast

end Field

end GoDraft
