import GoDraft.Proofs.Body.Covers
import GoDraft.Proofs.Body.Passes
import GoDraft.Proofs.Pattern.Bare
import GoDraft.Proofs.Pattern.Local
import GoDraft.Proofs.Text.Trim

/-!
# GoDraft — the rules for statements do not assign to the receiver

What a rule writes for a match can be put in its place. For most rules a look at their parts is enough; the others
leave something out behind their last group, or declare a name. A rule that declares the receiver is caught where it
reads, so it may write what it likes.

* `Pass.covers_apply` — from the matches of a pass to the pass;
* `isTame_of_mem_tameRules` — the rules that a look at their parts is enough for;
* `covers_equalsRule`, `covers_returnRule`, `covers_throwRule`, `covers_untilRule` — rules that leave something out;
* `catches_declaration` — the machine is caught by a declaration of the receiver;
* `covers_declaredObjectRule`, `covers_recastDeclaration` — rules that declare a name.
-/

namespace GoDraft

open Text

/-! ## Passes -/

/-- What a pass writes for a match can be put in its place. -/
theorem Pass.covers_apply {p p' : Bool} (hp : p' = true → p = true) {f : Pass}
    (h : ∀ k m, f.pattern.matchAt? k = some m → Covers p p' m.span.text (f.write m)) (t : Text) :
    Covers p p' t (f.apply t) := by
  refine Pattern.replaceAll_rel (.refl hp []) (fun c => .refl hp [c]) .append ?_
  intro m hm
  obtain ⟨k, hmatch⟩ := Pattern.exists_matchAt?_of_mem_findAll hm
  exact h k m hmatch

/-! ## Tame rules -/

/-- The comparison of two objects. -/
def equalsRule : Rule :=
  ⟨methodCall "equals" ++ Pattern.group 2 Pattern.someOfLine ++ ")", [.group 1, " == ", .group 2]⟩

/-- The rules of the library that a look at their parts is enough for. -/
def plainLibraryRules : List Rule := libraryRules.tail.dropLast

theorem libraryRules_eq : libraryRules = equalsRule :: (plainLibraryRules ++ [throwRule]) := rfl

/-- Rules that a look at their parts is enough for, each with the group that the parts stand around. -/
def tameRules : List (Rule × Option Nat) :=
  plainLibraryRules.zip (List.replicate 6 none ++ List.replicate 3 (some 1)) ++
    printRules.zip (List.replicate 3 (some 1)) ++
    [(doRule, none), (ifRule, some 1), (whileRule, some 1), (callRule, some 3), (newObjectRule, some 2)]

set_option maxRecDepth 4000 in
theorem isTame_of_mem_tameRules : ∀ x ∈ tameRules, x.1.IsTame false x.2 := by
  simp only [tameRules, plainLibraryRules, libraryRules, printRules, printRule, doRule, ifRule, whileRule, callRule,
    newObjectRule, List.tail_cons, List.dropLast_cons_cons, List.dropLast_singleton, List.replicate, List.zip_cons_cons,
    List.zip_nil_left, List.cons_append, List.nil_append, List.forall_mem_cons]
  refine ⟨?_, ?_, ?_, ?_, ?_, ?_, ?_, ?_, ?_, ?_, ?_, ?_, ?_, ?_, ?_, ?_, ?_, by simp⟩
  all_goals
    exact ⟨_, by
      repeat' first
        | exact .text _
        | exact .group rfl
        | apply Pattern.SpelledBy.seq
        | exact .filler rfl,
      by decide, by decide, by decide⟩

/-! ## Rules with a group at their end -/

section Ends

variable {k : Cursor} {m : Match}

/-- The parenthesis behind what is compared to is left out. -/
theorem covers_equalsRule (hm : equalsRule.pattern.matchAt? k = some m) :
    Covers true false m.span.text (equalsRule.template.fill m) := by
  have hspelled : equalsRule.pattern.SpelledBy
      [.group 1 Pattern.dotted, .text ".equals(", .group 2 Pattern.someOfLine, .text ")"] :=
    (((Pattern.SpelledBy.group rfl).seq (.text _)).seq (.group rfl)).seq (.text _)
  have hcalm := Rule.notMem_group hspelled (by decide) (by decide) hm
  refine Rule.covers_around (by decide) hspelled (by decide) (by decide) (i := 2) (by decide) (by decide) hm ?_ ?_
  · intro s g h
    exact .of_settles (h.settles (by decide)) (Template.settles_fill hcalm (by decide))
  · intro s g h
    obtain ⟨s, rfl, h₁⟩ := h.of_text
    obtain ⟨rfl, -⟩ := h₁.eq_nil
    exact .drop (by decide)

/-- The semicolon behind a result is left out. -/
theorem covers_returnRule (hm : returnRule.pattern.matchAt? k = some m) :
    Covers false false m.span.text (returnRule.template.fill m) := by
  have hspelled : returnRule.pattern.SpelledBy
      [.filler .wordEdge, .text "return", .filler Pattern.blanks1, .group 1 Pattern.someOfLine, .text ";"] :=
    ((((Pattern.SpelledBy.filler rfl).seq (.text _)).seq (.filler rfl)).seq (.group rfl)).seq (.text _)
  have hcalm := Rule.notMem_group hspelled (by decide) (by decide) hm
  refine Rule.covers_around id hspelled (by decide) (by decide) (i := 1) (by decide) (by decide) hm ?_ ?_
  · intro s g h
    obtain ⟨e, s, ⟨rfl, -⟩, rfl, h₁⟩ := h.of_filler
    obtain ⟨s, rfl, h₂⟩ := h₁.of_text
    obtain ⟨b, s, hb, rfl, h₃⟩ := h₂.of_filler
    obtain ⟨rfl, -⟩ := h₃.eq_nil
    obtain ⟨hne, hblank⟩ := Pattern.fits_many1_one hb
    rw [List.append_nil]
    have hwords : Words false "return".toList := by decide
    exact .of_settles (hwords.settles (run_blanks_of_word hne hblank)) (Template.settles_fill hcalm (by decide))
  · intro s g h
    obtain ⟨s, rfl, h₁⟩ := h.of_text
    obtain ⟨rfl, -⟩ := h₁.eq_nil
    exact .drop (by decide)

/-- The class of an exception goes into a comment behind it. -/
theorem covers_throwRule (hm : throwRule.pattern.matchAt? k = some m) :
    Covers false false m.span.text (throwRule.template.fill m) := by
  have hspelled : throwRule.pattern.SpelledBy
      [.filler .wordEdge, .text "throw", .filler Pattern.blanks1, .text "new", .filler Pattern.blanks1,
        .group 1 Pattern.word, .text "(", .group 2 Pattern.someOfLine, .text ");"] :=
    ((((((((Pattern.SpelledBy.filler rfl).seq (.text _)).seq (.filler rfl)).seq (.text _)).seq (.filler rfl)).seq
      (.group rfl)).seq (.text _)).seq (.group rfl)).seq (.text _)
  have hcalm := Rule.notMem_group hspelled (by decide) (by decide) hm
  refine Rule.covers_around id hspelled (by decide) (by decide) (i := 2) (by decide) (by decide) hm ?_ ?_
  · exact fun s g h => Rule.covers_of_settles (by decide) hcalm h
  · intro s g h
    have hword : ∀ c ∈ m.group 1, isWordChar c = true := by
      obtain ⟨-, -, g, hfits, hgroup⟩ := Pattern.fits_of_matchAt? hm
      rw [hgroup]
      exact (Pattern.fits_many1_one ((hspelled _ g hfits).fits_text (by decide) (i := 1) (p := Pattern.word)
        (by simp))).2
    have hcomment : Words false ") // ".toList := by decide
    have hfill : (throwRule.template.behind 2).fill m = ") // ".toList ++ (m.group 1 ++ []) := rfl
    rw [hfill, List.append_nil]
    exact .of_words (h.settles (by decide)) (hcomment.append_word hword)

theorem covers_untilRule (hm : untilRule.pattern.matchAt? k = some m) :
    Covers false false m.span.text (untilRule.template.fill m) := by
  have hspelled : untilRule.pattern.SpelledBy
      [.text "\x7d", .filler Pattern.blanks, .text "while", .filler Pattern.blanks, .text "(",
        .group 1 Pattern.someOfLine, .text ")", .filler Pattern.blanks, .text ";"] :=
    ((((((((Pattern.SpelledBy.text _).seq (.filler rfl)).seq (.text _)).seq (.filler rfl)).seq (.text _)).seq
      (.group rfl)).seq (.text _)).seq (.filler rfl)).seq (.text _)
  have hcalm := Rule.notMem_group hspelled (by decide) (by decide) hm
  refine Rule.covers_around id hspelled (by decide) (by decide) (i := 1) (by decide) (by decide) hm ?_ ?_
  · exact fun s g h => Rule.covers_of_settles (by decide) hcalm h
  · intro s g h
    obtain ⟨s, rfl, h₁⟩ := h.of_text
    obtain ⟨b, s, hb, rfl, h₂⟩ := h₁.of_filler
    obtain ⟨s, rfl, h₃⟩ := h₂.of_text
    obtain ⟨rfl, -⟩ := h₃.eq_nil
    have hparen : Settles false ")".toList := by decide
    refine .of_settles (hparen.append_loose ?_) (Template.settles_fill hcalm (by decide))
    rw [List.append_nil, List.forall_mem_append]
    exact ⟨fun c hc => isLoose_of_isBlank (Pattern.fits_many_one hb c hc), by decide⟩

end Ends

/-! ## Declarations -/

/-- The machine is caught by a text, whatever stands before it. -/
def Catches (p : Bool) (s : Text) : Prop := ∀ q, Watch.run p q s = .caught

section Declarations

variable {p : Bool} {s type gap name blanks v : Text}

theorem Catches.covers (h : Catches p s) (p' : Bool) (s' : Text) : Covers p p' s s' := by
  intro q q' _
  rw [h]
  exact Watch.under_caught _

theorem Catches.behind (h : Catches p s) (u : Text) : Catches p (u ++ s) := by
  intro q
  rw [Watch.run_append, h]

theorem Catches.append (h : Catches p s) (u : Text) : Catches p (s ++ u) := by
  intro q
  rw [Watch.run_append, h, Watch.run_caught]

/-- Behind a word and a gap a name may begin. -/
theorem run_word_gap (htype : type ≠ [] ∧ ∀ c ∈ type, isWordChar c = true)
    (hgap : gap ≠ [] ∧ ∀ c ∈ gap, isLoose p c = true) (q : Watch) :
    Watch.run p q (type ++ gap) = .free ∨ Watch.run p q (type ++ gap) = .armed ∨
      Watch.run p q (type ++ gap) = .caught := by
  -- behind the last letter of the word, behind the first character of the gap, and behind any other
  have hletter : ∀ (p : Bool) (q : Watch) (k : Glyph), k = .receiver ∨ k = .letter →
      q.step p k = .word ∨ q.step p k = .name ∨ q.step p k = .caught := by decide
  have hfirst : ∀ (p : Bool) (q : Watch) (k : Glyph), (k = .space ∨ k = .loose ∨ p = true ∧ k = .paren) →
      q = .word ∨ q = .name ∨ q = .caught →
      q.step p k = .free ∨ q.step p k = .armed ∨ q.step p k = .caught := by decide
  have hnext : ∀ (p : Bool) (q : Watch) (k : Glyph), (k = .space ∨ k = .loose ∨ p = true ∧ k = .paren) →
      q = .free ∨ q = .armed ∨ q = .caught →
      q.step p k = .free ∨ q.step p k = .armed ∨ q.step p k = .caught := by decide
  obtain ⟨u, c, rfl⟩ : ∃ u c, type = u ++ [c] := ⟨_, _, (List.dropLast_append_getLast htype.1).symm⟩
  obtain ⟨d, v, rfl⟩ := List.exists_cons_of_ne_nil hgap.1
  rw [List.forall_mem_cons] at hgap
  rw [Watch.run_append, Watch.run_append, Watch.run_cons, Watch.run_cons, Watch.run_nil]
  exact Watch.run_induct (P := fun q => q = .free ∨ q = .armed ∨ q = .caught)
    (fun e he q hq => hnext p q _ (Glyph.isLoose_iff.mp (hgap.2.2 e he)) hq)
    (hfirst p _ _ (Glyph.isLoose_iff.mp hgap.2.1) (hletter p _ _ (Glyph.of_word (htype.2 c (by simp)))))

/-- The machine is caught by a declaration of the receiver. -/
theorem catches_declaration (htype : type ≠ [] ∧ ∀ c ∈ type, isWordChar c = true)
    (hgap : gap ≠ [] ∧ ∀ c ∈ gap, isBlank c = true) (hblanks : ∀ c ∈ blanks, isBlank c = true)
    (hv : v ≠ []) (hv' : v.head? ≠ some '=') :
    Catches p (type ++ (gap ++ (receiver ++ (blanks ++ '=' :: v)))) := by
  intro q
  obtain ⟨d, v, rfl⟩ := List.exists_cons_of_ne_nil hv
  have hopen : ∀ q : Watch, q = .free ∨ q = .armed ∨ q = .caught → q.isOpen = true ∨ q.isCaught = true := by decide
  have hgap' : gap ≠ [] ∧ ∀ c ∈ gap, isLoose p c = true := ⟨hgap.1, fun c hc => isLoose_of_isBlank (hgap.2 c hc)⟩
  have hequals := Watch.run_receiver (p := p) (u := blanks) (hopen _ (run_word_gap htype hgap' q))
    (fun c hc => isLoose_of_isBlank (hblanks c hc))
  have hparts : type ++ (gap ++ (receiver ++ (blanks ++ '=' :: d :: v))) =
      type ++ gap ++ (receiver ++ (blanks ++ ['='])) ++ d :: v := by simp
  rw [hparts, Watch.run_append, Watch.run_append]
  exact Watch.run_cons_of_equal hequals (by simpa using hv')

/-- The machine begins anew behind the equals sign of a name that is not the receiver. -/
theorem settles_equals (hname : Words p name) (hblanks : ∀ c ∈ blanks, isBlank c = true) :
    Settles p (name ++ (blanks ++ ['='])) := by
  refine hname.settles ?_
  rw [Watch.run_append]
  by_cases hne : blanks = []
  · rw [hne]
    cases p <;> rfl
  · rw [run_blanks_of_word hne hblanks]
    cases p <;> rfl

theorem isBlank_of_fits_gap {g : Notes} (h : Pattern.gap.Fits s g) : ∀ c ∈ s, isBlank c = true := by
  have hgap : ∀ c ∈ " \t".toList, isBlank c = true := by decide
  exact fun c hc => hgap c (List.elem_iff.mp (Pattern.fits_many_one h c hc))

theorem isBlank_of_fits_gap1 {g : Notes} (h : Pattern.gap1.Fits s g) : s ≠ [] ∧ ∀ c ∈ s, isBlank c = true := by
  have hgap : ∀ c ∈ " \t".toList, isBlank c = true := by decide
  obtain ⟨hne, hs⟩ := Pattern.fits_many1_one h
  exact ⟨hne, fun c hc => hgap c (List.elem_iff.mp (hs c hc))⟩

theorem head?_blanks_append (hblanks : ∀ c ∈ blanks, isBlank c = true) {c : Char} (hc : c ≠ '=') (v : Text) :
    (blanks ++ c :: v).head? ≠ some '=' := by
  cases blanks with
  | nil => simpa using hc
  | cons b blanks =>
    rintro hhead
    obtain rfl : b = '=' := by simpa using hhead
    exact absurd (hblanks _ List.mem_cons_self) (by decide)

theorem covers_declaredObjectRule {k : Cursor} {m : Match} (hm : declaredObjectRule.pattern.matchAt? k = some m) :
    Covers false false m.span.text (declaredObjectRule.template.fill m) := by
  -- the parts of the pattern, in their order, cut the match
  have hspelled : declaredObjectRule.pattern.SpelledBy
      [.group 1 Pattern.word, .filler Pattern.gap1, .group 2 Pattern.word, .filler Pattern.blanks, .text "=",
        .filler Pattern.blanks, .text "new", .filler Pattern.blanks1, .group 3 Pattern.word, .text "(",
        .group 4 Pattern.someOfLine, .text ");"] :=
    (((((((((((Pattern.SpelledBy.group rfl).seq (.filler rfl)).seq (.group rfl)).seq (.filler rfl)).seq (.text _)).seq
      (.filler rfl)).seq (.text _)).seq (.filler rfl)).seq (.group rfl)).seq (.text _)).seq (.group rfl)).seq (.text _)
  obtain ⟨-, -, g, hfits, hgroup⟩ := Pattern.fits_of_matchAt? hm
  have hspells := hspelled _ g hfits
  have hfill : declaredObjectRule.template.fill m = m.group 2 ++ (" := &".toList ++ (m.group 3 ++ ("\x7b".toList ++
      (m.group 4 ++ ("\x7d".toList ++ []))))) := rfl
  rw [hfill, hgroup 1, hgroup 2, hgroup 3]
  generalize m.span.text = s at hspells
  obtain ⟨type, s, g, htype, rfl, rfl, h₁⟩ := hspells.of_group
  obtain ⟨gap, s, hgap, rfl, h₂⟩ := h₁.of_filler
  obtain ⟨name, s, g, hname, rfl, rfl, h₃⟩ := h₂.of_group
  obtain ⟨b, s, hb, rfl, h₄⟩ := h₃.of_filler
  obtain ⟨s, rfl, h₅⟩ := h₄.of_text
  obtain ⟨b', s, hb', rfl, h₆⟩ := h₅.of_filler
  obtain ⟨s, rfl, h₇⟩ := h₆.of_text
  obtain ⟨b'', s, hb'', rfl, h₈⟩ := h₇.of_filler
  obtain ⟨object, s, g, hobject, rfl, rfl, h₉⟩ := h₈.of_group
  obtain ⟨s, rfl, h₁₀⟩ := h₉.of_text
  obtain ⟨args, s, g, -, rfl, rfl, h₁₁⟩ := h₁₀.of_group
  obtain ⟨s, rfl, h₁₂⟩ := h₁₁.of_text
  obtain ⟨rfl, rfl⟩ := h₁₂.eq_nil
  show Covers false false _ (name ++ (" := &".toList ++ (object ++ ("\x7b".toList ++ (args ++ "\x7d".toList)))))
  have htype' := Pattern.fits_many1_one htype
  have hname' := Pattern.fits_many1_one hname
  have hgap' := isBlank_of_fits_gap1 hgap
  have hblanks := Pattern.fits_many_one hb
  -- a receiver that is declared anew is caught in the Java text; any other name is none in either text
  by_cases hreceiver : name = receiver
  · subst hreceiver
    exact (catches_declaration htype' hgap' hblanks (by simp)
      (head?_blanks_append (Pattern.fits_many_one hb') (by decide) _)).covers _ _
  · have hwords : Words false name := words_of_ne_receiver hname'.2 hname'.1 hreceiver
    have hobject' : Calm false object := calm_of_isWordChar (Pattern.fits_many1_one hobject).2
    have hbefore : Settles false (type ++ (gap ++ (name ++ (b ++ "=".toList) ++ (b' ++ ("new".toList ++ (b'' ++
        (object ++ "(".toList))))))) := by
      refine (calm_of_isWordChar htype'.2).settles ((calm_of_isBlank hgap'.2).settles
        ((settles_equals hwords hblanks).calm.settles ((calm_of_isBlank (Pattern.fits_many_one hb')).settles ?_)))
      exact Calm.settles (by decide) ((calm_of_isBlank (Pattern.fits_many1_one hb'').2).settles
        (hobject'.settles (by decide)))
    have hbefore' : Settles false (name ++ " := &".toList ++ (object ++ "\x7b".toList)) :=
      (hwords.settles (by decide)).calm.settles (hobject'.settles (by decide))
    have hbehind : Covers false false (args ++ ");".toList) (args ++ "\x7d".toList) :=
      (Covers.refl id args).append (.of_settles (by decide) (by decide))
    have hwhole := (Covers.of_settles hbefore hbefore').append hbehind
    simp only [List.append_assoc] at hwhole
    exact hwhole

/-- A string literal begins and ends with a quote. -/
theorem exists_of_fits_stringLiteral {g : Notes} (h : Pattern.stringLiteral.Fits s g) :
    ∃ content, s = "\"".toList ++ (content ++ "\"".toList) := by
  obtain ⟨_, _, _, _, ⟨_, _, content, _, hopen, -, rfl, -⟩, hclose, rfl, -⟩ := h
  rw [(Pattern.fits_text hopen).1, (Pattern.fits_text hclose).1]
  exact ⟨content, List.append_assoc _ _ _⟩

/-- The value of a declaration begins with a character that is no equals sign. -/
theorem exists_of_fits_value {g : Notes} {p : Pattern}
    (h : ((Pattern.stringLiteral ||| Pattern.noneOf ";=\n\"") ++ p).Fits s g) : ∃ c v, s = c :: v ∧ c ≠ '=' := by
  obtain ⟨_, _, v, _, hliteral | ⟨c, hc, rfl, -⟩, -, rfl, -⟩ := h
  · obtain ⟨content, rfl⟩ := exists_of_fits_stringLiteral hliteral
    exact ⟨_, _, rfl, by decide⟩
  · refine ⟨c, v, rfl, ?_⟩
    rintro rfl
    exact absurd hc (by decide)

theorem covers_trimEnd (t : Text) : Covers p p t t.trimEnd := by
  have hparts := (Covers.refl (p := p) id t.trimEnd).append (.drop fun c hc =>
    isLoose_of_isBlank (List.mem_takeWhile_imp (List.mem_reverse.mp hc)) :
      Covers p p (t.reverse.takeWhile GoDraft.isBlank).reverse [])
  rwa [trimEnd_append_takeWhile, List.append_nil] at hparts

theorem covers_recastDeclaration {k : Cursor} {m : Match} (hm : declarationPattern.matchAt? k = some m) :
    Covers false false m.span.text (recastDeclaration m) := by
  have hspelled : declarationPattern.SpelledBy
      [.group 1 (.lineStart ||| Pattern.oneOf ";\x7b\x7d"), .group 2 Pattern.gap, .group 3 Pattern.word,
        .filler Pattern.gap1, .group 4 Pattern.word, .filler Pattern.gap, .text "=", .filler Pattern.gap,
        .group 5 ((Pattern.stringLiteral ||| Pattern.noneOf ";=\n\"") ++
          Pattern.many (Pattern.stringLiteral ||| Pattern.noneOf ";\n\""))] :=
    ((((((((Pattern.SpelledBy.group rfl).seq (.group rfl)).seq (.group rfl)).seq (.filler rfl)).seq (.group rfl)).seq
      (.filler rfl)).seq (.text _)).seq (.filler rfl)).seq (.group rfl)
  obtain ⟨-, -, g, hfits, hgroup⟩ := Pattern.fits_of_matchAt? hm
  have hspells := hspelled _ g hfits
  unfold recastDeclaration
  split
  · exact .refl id _
  · rw [hgroup 0, hgroup 1, hgroup 3, hgroup 4]
    generalize m.span.text = s at hspells
    obtain ⟨start, s, g, hstart, rfl, rfl, h₁⟩ := hspells.of_group
    obtain ⟨lead, s, g, hlead, rfl, rfl, h₂⟩ := h₁.of_group
    obtain ⟨type, s, g, htype, rfl, rfl, h₃⟩ := h₂.of_group
    obtain ⟨gap, s, hgap, rfl, h₄⟩ := h₃.of_filler
    obtain ⟨name, s, g, hname, rfl, rfl, h₅⟩ := h₄.of_group
    obtain ⟨b, s, hb, rfl, h₆⟩ := h₅.of_filler
    obtain ⟨s, rfl, h₇⟩ := h₆.of_text
    obtain ⟨b', s, hb', rfl, h₈⟩ := h₇.of_filler
    obtain ⟨value, s, g, hvalue, rfl, rfl, h₉⟩ := h₈.of_group
    obtain ⟨rfl, rfl⟩ := h₉.eq_nil
    show Covers false false _ (start ++ lead ++ name ++ " := ".toList ++ value.trimEnd)
    have htype' := Pattern.fits_many1_one htype
    have hname' := Pattern.fits_many1_one hname
    have hgap' := isBlank_of_fits_gap1 hgap
    have hblanks := isBlank_of_fits_gap hb
    have hblanks' := isBlank_of_fits_gap hb'
    -- as for objects, but the value may end with blanks that are dropped
    by_cases hreceiver : name = receiver
    · subst hreceiver
      obtain ⟨c, v, rfl, hc⟩ := exists_of_fits_value hvalue
      exact (((catches_declaration htype' hgap' hblanks (by simp) (head?_blanks_append hblanks' hc _)).behind
        lead).behind start).covers _ _
    · have hwords : Words false name := words_of_ne_receiver hname'.2 hname'.1 hreceiver
      have hstart' : Calm false start := calm_of_notMem (Pattern.not_mem_of_avoids rfl _ _ hstart)
      have hlead' : Calm false lead := calm_of_isBlank (isBlank_of_fits_gap hlead)
      have hbefore : Settles false (start ++ (lead ++ (type ++ (gap ++ (name ++ (b ++ "=".toList) ++ b'))))) :=
        hstart'.settles (hlead'.settles ((calm_of_isWordChar htype'.2).settles ((calm_of_isBlank hgap'.2).settles
          ((settles_equals hwords hblanks).append_loose fun c hc => isLoose_of_isBlank (hblanks' c hc)))))
      have hbefore' : Settles false (start ++ (lead ++ (name ++ " := ".toList))) :=
        hstart'.settles (hlead'.settles (hwords.settles (by decide)))
      have hwhole := (Covers.of_settles hbefore hbefore').append (covers_trimEnd value)
      simp only [List.append_assoc] at hwhole
      simp only [List.append_assoc, List.append_nil]
      exact hwhole

end Declarations

end GoDraft
