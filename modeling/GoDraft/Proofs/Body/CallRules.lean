import GoDraft.Proofs.Body.KeywordRules
import GoDraft.Proofs.Pattern.Parts

/-!
# GoDraft — rules for calls and strings

The rules for idioms of the library, for printing, for joined strings and for calls need a dot or a
quote. Among the lines of statements only those that print have a dot, and none has a quote.

* `dotsLead` — what may follow the dots of a text;
* `applyAll_libraryRules`, `applyAll_concatRules`, `apply_callRule` — rules that change nothing;
* `applyAll_printRules` — printing.
-/

namespace GoDraft

open Pattern

variable {k : Nat} {l : Line}

/-! ## Marks that a line lacks -/

theorem not_mem_gap {c : Char} (hc : isGap c = false) (gap : Gap) : c ∉ gap.text := by
  intro h
  rw [gap.isGap c h] at hc
  exact absurd hc.symm Bool.false_ne_true

/-- Among the lines of statements only those that print have a dot. -/
theorem marksAll_dot (h : ∀ value, l ≠ .simple (.print value)) :
    marksAll (· != '.') (l.tokens k) = true := by
  have hcondition := fun c ts => Line.marksAll_conditionTokens (p := (· != '.')) (by decide) c ts
  have harguments := fun as => Line.marksAll_argumentTokens (p := (· != '.')) (by decide) as
  have hgap := fun gap => Line.marksAll_gap (p := (· != '.')) (by decide) gap
  unfold Line.tokens
  cases l with
  | simple s =>
    cases s with
    | print value => exact absurd rfl (h value)
    | _ => split <;> simp [Line.javaTokens, Line.recastTokens, harguments]
  | opening o => cases o <;> split <;> simp [Line.javaTokens, Line.recastTokens, hcondition]
  | _ => split <;> simp [Line.javaTokens, Line.recastTokens, hcondition, hgap]

theorem not_mem_form {c : Char} (hc : c ∉ nameChars) (h : marksAll (· != c) (l.tokens k) = true) :
    c ∉ l.form k := by
  rw [← l.spell_tokens]
  exact not_mem_spell hc (l.isSpaced_tokens k) h

/-- A character that no line and no gap has is in no text of rows. -/
theorem not_mem_rowsTail {c : Char} (hc : isGap c = false) (hnewline : c ≠ '\n')
    (h : ∀ l : Line, c ∉ l.form k) : ∀ rs : List Row, c ∉ rowsTail k rs
  | [] => List.not_mem_nil
  | r :: rs => by
    have ih := not_mem_rowsTail hc hnewline h rs
    obtain ⟨lead, line?, trail⟩ := r
    have hline : c ∉ line?.elim [] (Line.form k) := by
      cases line? with
      | none => exact List.not_mem_nil
      | some l => exact h l
    simp [rowsTail, Row.text, not_mem_gap hc, hnewline, ih, hline]

theorem not_mem_rowsText {c : Char} (hc : isGap c = false) (hnewline : c ≠ '\n')
    (h : ∀ l : Line, c ∉ l.form k) (rs : List Row) : c ∉ rowsText k rs := by
  cases rs with
  | nil => exact List.not_mem_nil
  | cons r rs =>
    have htail := not_mem_rowsTail hc hnewline h (r :: rs)
    rw [rowsTail, List.mem_cons, not_or] at htail
    exact htail.2

/-! ## What follows a dot -/

/-- Whether one of some texts stands behind every dot of a text. -/
def dotsLead (heads : List Text) : Text → Bool
  | [] => true
  | c :: t => (c != '.' || heads.any (·.isPrefixOf t)) && dotsLead heads t

theorem dotsLead_append {heads : List Text} {s : Text} (h : '.' ∉ s) (t : Text) :
    dotsLead heads (s ++ t) = dotsLead heads t := by
  induction s with
  | nil => rfl
  | cons c s ih =>
    rw [List.mem_cons, not_or] at h
    have hc : (c != '.') = true := by simpa using Ne.symm h.1
    rw [List.cons_append, dotsLead, hc, ih h.2]
    rfl

/-- A dot is not followed by anything but what follows dots in the text. -/
theorem not_infix_of_dotsLead {heads : List Text} {d t : Text} (h : dotsLead heads t = true)
    (hd : (heads.all fun x => decide (x.length ≤ d.length) && !x.isPrefixOf d) = true) :
    ¬ ('.' :: d) <:+: t := by
  rintro ⟨pre, post, rfl⟩
  induction pre with
  | nil =>
    simp only [List.nil_append, List.cons_append, dotsLead, bne_self_eq_false, Bool.false_or,
      Bool.and_eq_true, List.any_eq_true] at h
    obtain ⟨⟨x, hx, hprefix⟩, -⟩ := h
    rw [List.all_eq_true] at hd
    have hx := hd x hx
    rw [Bool.and_eq_true, decide_eq_true_eq, Bool.not_eq_true'] at hx
    have hxd : x <+: d :=
      List.prefix_of_prefix_length_le (List.isPrefixOf_iff_prefix.mp hprefix)
        (List.prefix_append d post) hx.1
    rw [List.isPrefixOf_iff_prefix.mpr hxd] at hx
    exact absurd hx.2.symm Bool.false_ne_true
  | cons c pre ih =>
    rw [List.cons_append, List.cons_append, dotsLead, Bool.and_eq_true] at h
    exact ih h.2

theorem dotsLead_rowsTail {heads : List Text}
    (h : ∀ (l : Line) (t : Text), dotsLead heads (l.form k ++ t) = dotsLead heads t) :
    ∀ rs : List Row, dotsLead heads (rowsTail k rs) = true
  | [] => rfl
  | r :: rs => by
    have ih := dotsLead_rowsTail h rs
    obtain ⟨lead, line?, trail⟩ := r
    have hgap (g : Gap) (t : Text) : dotsLead heads (g.text ++ t) = dotsLead heads t :=
      dotsLead_append (not_mem_gap (by decide) g) t
    cases line? with
    | none => simp [rowsTail, Row.text, dotsLead, hgap, ih]
    | some l => simp [rowsTail, Row.text, dotsLead, hgap, h, ih]

theorem dotsLead_rowsText {heads : List Text}
    (h : ∀ (l : Line) (t : Text), dotsLead heads (l.form k ++ t) = dotsLead heads t) (rs : List Row) :
    dotsLead heads (rowsText k rs) = true := by
  cases rs with
  | nil => rfl
  | cons r rs =>
    have htail := dotsLead_rowsTail h (r :: rs)
    rw [rowsTail, dotsLead, Bool.and_eq_true] at htail
    exact htail.2

theorem dotsLead_form_zero (l : Line) (t : Text) :
    dotsLead ["ou", "pr"] (l.form 0 ++ t) = dotsLead ["ou", "pr"] t := by
  by_cases h : ∃ value, l = .simple (.print value)
  · obtain ⟨value, rfl⟩ := h
    have hvalue : '.' ∉ value.text := fun hmem => absurd (value.plain _ hmem) (by decide)
    have hform : (Line.simple (.print value)).form 0 ++ t =
        "System".toList ++ '.' :: ("out".toList ++ '.' :: ("println(".toList ++ (value.text ++
          (");".toList ++ t)))) := by
      rw [← Line.spell_tokens]
      simp [Line.tokens, Line.turn, Line.javaTokens, Token.text]
    rw [hform]
    simp [dotsLead, dotsLead_append hvalue]
  · exact dotsLead_append (not_mem_form (by decide) (marksAll_dot (not_exists.mp h))) t

theorem dotsLead_form_one (l : Line) (t : Text) :
    dotsLead ["Pr"] (l.form 1 ++ t) = dotsLead ["Pr"] t := by
  by_cases h : ∃ value, l = .simple (.print value)
  · obtain ⟨value, rfl⟩ := h
    have hvalue : '.' ∉ value.text := fun hmem => absurd (value.plain _ hmem) (by decide)
    have hform : (Line.simple (.print value)).form 1 ++ t =
        "fmt".toList ++ '.' :: ("Println(".toList ++ (value.text ++ (")".toList ++ t))) := by
      rw [← Line.spell_tokens]
      simp [Line.tokens, Line.turn, Line.recastTokens, Token.text]
    rw [hform]
    simp [dotsLead, dotsLead_append hvalue]
  · exact dotsLead_append (not_mem_form (by decide) (marksAll_dot (not_exists.mp h))) t

/-! ## Rules that change nothing -/

theorem applyAll_of_forall {t : Text} : ∀ {rules : List Rule}, (∀ r ∈ rules, r.apply t = t) →
    Rule.applyAll rules t = t
  | [], _ => rfl
  | r :: rules, h => by
    have hr : r.apply t = t := h r List.mem_cons_self
    rw [Rule.applyAll, List.foldl_cons, hr]
    exact applyAll_of_forall fun r' hr' => h r' (List.mem_cons_of_mem r hr')

theorem methodCall_has (name : String) :
    (methodCall name).Has ("." ++ name ++ "(").toList := .right (.text List.infix_rfl)

/-- The rules for the library find nothing in rows of statements. -/
theorem applyAll_libraryRules (rs : List Row) :
    Rule.applyAll libraryRules (rowsText 0 rs) = rowsText 0 rs := by
  have hdots := dotsLead_rowsText dotsLead_form_zero rs
  have hkeep : ∀ (r : Rule) (d : Text), r.pattern.Has ('.' :: d) →
      (["ou".toList, "pr".toList].all fun x => decide (x.length ≤ d.length) && !x.isPrefixOf d) = true →
      r.apply (rowsText 0 rs) = rowsText 0 rs :=
    fun r d hr hd => replaceAll_of_not_infix hr (not_infix_of_dotsLead hdots hd)
  apply applyAll_of_forall
  simp only [libraryRules, List.forall_mem_cons]
  refine ⟨?_, ?_, ?_, ?_, ?_, ?_, ?_, ?_, ?_, ?_, ?_, by simp⟩
  · exact hkeep _ "equals(" (.left (.left (methodCall_has "equals"))) (by decide)
  · exact hkeep _ "length(" (.left (methodCall_has "length")) (by decide)
  · exact hkeep _ "charAt(" (.left (.left (methodCall_has "charAt"))) (by decide)
  · exact hkeep _ "toLowerCase(" (.left (methodCall_has "toLowerCase")) (by decide)
  · exact hkeep _ "toUpperCase(" (.left (methodCall_has "toUpperCase")) (by decide)
  · exact hkeep _ "substring(" (.left (.left (.left (.left (.left (methodCall_has "substring"))))))
      (by decide)
  · exact hkeep _ "substring(" (.left (.left (methodCall_has "substring"))) (by decide)
  · exact hkeep _ "parseInt(" (.left (.left (.text ⟨"Integer".toList, [], by decide⟩))) (by decide)
  · exact hkeep _ "parseDouble(" (.left (.left (.text ⟨"Double".toList, [], by decide⟩))) (by decide)
  · exact hkeep _ "parseBoolean(" (.left (.left (.text ⟨"Boolean".toList, [], by decide⟩))) (by decide)
  · exact replaceAll_rowsText_of_line (by decide) takesLine_throwRule rs

/-- The rules for joined strings find nothing in rows of statements. -/
theorem applyAll_concatRules (k : Nat) (rs : List Row) :
    Rule.applyAll concatRules (rowsText k rs) = rowsText k rs := by
  have hquote : '"' ∉ rowsText k rs :=
    not_mem_rowsText (by decide) (by decide) (fun l h => absurd (l.mem_chars k _ h) (by decide)) rs
  have hliteral : stringLiteral.Has ['"'] := .left (.left (.text List.infix_rfl))
  have hkeep : ∀ r : Rule, r.pattern.Has ['"'] → r.apply (rowsText k rs) = rowsText k rs := by
    intro r hr
    apply replaceAll_of_not_infix hr
    exact fun h => hquote (h.subset List.mem_cons_self)
  apply applyAll_of_forall
  simp only [concatRules, List.forall_mem_cons]
  refine ⟨?_, ?_, by simp⟩
  · exact hkeep _ (.left (.left (.left (.left (hliteral.group 1)))))
  · exact hkeep _ (.right (hliteral.group 2))

/-! ## Printing -/

/-- A text that begins with a word and a dot does not stand at a word without a dot behind it. -/
theorem not_prefix_of_word {w₀ w x t : Text} (hw₀ : ∀ c ∈ w₀, c ∈ nameChars)
    (hw : ∀ c ∈ w, c ∈ nameChars) (ht : stopsAt (fun c => isWordChar c || c == '.') t = true) :
    ¬ (w₀ ++ '.' :: x) <+: w ++ t := by
  rintro ⟨r, hr⟩
  rw [List.append_assoc] at hr
  rcases List.append_eq_append_iff.mp hr.symm with ⟨m, hm, htail⟩ | ⟨m, hm, htail⟩
  · -- the word ends inside `w₀` or with it
    cases m with
    | nil =>
      rw [htail] at ht
      exact absurd ht (by simp)
    | cons c m =>
      have hc : isWordChar c = true := isWordChar_of_mem_nameChars (hw₀ c (by rw [hm]; simp))
      rw [htail, List.cons_append, stopsAt_cons, hc] at ht
      exact absurd ht (by simp)
  · -- the word goes on behind `w₀`
    cases m with
    | nil =>
      rw [List.nil_append] at htail
      rw [← htail] at ht
      exact absurd ht (by simp)
    | cons c m =>
      have hc : c = '.' := by
        rw [List.cons_append, List.cons_append, List.cons.injEq] at htail
        exact htail.1.symm
      have hmem : '.' ∈ nameChars := hw '.' (by rw [hm, hc]; simp)
      exact absurd hmem (by decide)

theorem skips_of_noDot (w₀ x : Text) {tail : Text} (hw₀ : isPlainWord w₀ = true) (q : Pattern)
    (htail : EndsLine tail) : ∀ {ts : List Token} {b : Option Char}, isSpaced ts = true →
      marksAll (· != '.') ts = true → (text (w₀ ++ '.' :: x) ++ q).Skips b (spell ts) tail
  | [], _, _, _ => trivial
  | tok :: ts, b, hspaced, hdot => by
    have hts := isSpaced_of_cons hspaced
    have hplain : ∀ c ∈ w₀, c ∈ nameChars := by
      rw [isPlainWord, Bool.and_eq_true, List.all_eq_true] at hw₀
      simpa using hw₀.2
    rw [marksAll, List.all_cons, Bool.and_eq_true] at hdot
    refine skips_append ?_ (skips_of_noDot w₀ x hw₀ q htail hts hdot.2)
    by_cases hw : tok.isWord = true
    · -- the call begins with a word and a dot, and no dot stands behind this word
      have hstop : stopsAt (fun c => isWordChar c || c == '.') (spell ts ++ tail) = true := by
        have hword := stopsAt_of_isWord hspaced hw htail.stopsAt_word
        have hmark := hdot.2
        cases ts with
        | nil => exact htail.stopsAt (by decide)
        | cons tok' ts =>
          cases tok' with
          | mark c =>
            rw [List.all_cons, Bool.and_eq_true] at hmark
            simp only [spell_cons, Token.text, List.cons_append, List.nil_append, stopsAt_cons,
              Bool.not_eq_true'] at hword ⊢
            rw [hword]
            simpa using hmark.1
          | _ => cases tok <;> simp [isSpaced, startsMark, Token.isWord] at hspaced hw
      exact skips_word (fun w b _ hw => views_seq_of_eq_nil
        (views_text_eq_nil (not_prefix_of_word hplain hw hstop))) (Token.plain_of_isWord hspaced hw)
    · cases tok with
      | mark c =>
        rw [isSpaced, Bool.and_eq_true, Bool.not_eq_true'] at hspaced
        refine ⟨views_seq_of_eq_nil (views_text_eq_nil ?_), trivial⟩
        rintro ⟨r, hr⟩
        cases w₀ with
        | nil => exact absurd hw₀ Bool.false_ne_true
        | cons d w₀ =>
          rw [List.cons_append, List.cons_append, List.cons.injEq] at hr
          have hd := isWordChar_of_mem_nameChars (hplain d List.mem_cons_self)
          rw [hr.1, hspaced.1] at hd
          exact absurd hd Bool.false_ne_true
      | _ => exact absurd rfl hw

theorem takesLine_printlnRule (l : Line) :
    TakesLine (printRule "System.out.println(" "fmt.Println(").pattern
      (printRule "System.out.println(" "fmt.Println(").template.fill 0 1 l := by
  have hviews : ∀ v, (printRule "System.out.println(" "fmt.Println(").pattern.views v =
      (text "System.out.println(" ++ (group 1 someOfLine ++ text ");")).views v := by
    intro v
    simp only [printRule, views_assoc]
  by_cases h : l.turn = 1
  · have hl := l.eq_of_turn
    rw [h] at hl
    obtain ⟨value, rfl⟩ := hl
    have hform : ∀ tail, (Line.simple (.print value)).form 0 ++ tail =
        "System.out.println(".toList ++ (value.text ++ (");".toList ++ tail)) := by
      intro tail
      rw [← Line.spell_tokens]
      simp [Line.tokens, Line.turn, Line.javaTokens, Token.text]
    apply takesLine_of_first (n := [(1, value.text)])
    · intro b tail _ _
      have hline : (nameChars.all fun d => !"\n".toList.elem d) = true := by decide
      have hreject : (text ");").rejectsAll nameChars = true := by decide
      refine ⟨some ';', ?_⟩
      rw [hform, First, hviews]
      -- the value has no parenthesis, so the lazy group ends with it
      refine First.seq (First.text _ _ _ _) ?_
      exact First.lazy (fun d hd => List.all_eq_true.mp hline d (value.plain d hd))
        (fun d hd => rejects_of_rejectsAll hreject (value.plain d hd)) (First.text [')', ';'] _ _ _)
    · intro m offset hm
      have hvalue : m.group 1 = value.text := hm.group 0
      rw [← Line.spell_tokens]
      simp [Line.tokens, Line.turn, Line.recastTokens, Token.text, printRule, Template.fill, hvalue]
  · apply takesLine_of_skips (Line.form_succ_of_ne h)
    intro g rs b _
    have hprint : ∀ value, l ≠ .simple (.print value) := by
      rintro value rfl
      exact h rfl
    rw [← l.spell_tokens]
    apply skips_congr hviews
    -- other lines have no dots
    exact skips_of_noDot "System".toList "out.println(".toList (by decide) _
      (endsLine_rows g 0 rs) (l.isSpaced_tokens 0) (marksAll_dot hprint)

/-- The rules for printing take the lines that print. -/
theorem applyAll_printRules (rs : List Row) :
    Rule.applyAll printRules (rowsText 0 rs) = rowsText 1 rs := by
  have hdots := dotsLead_rowsText dotsLead_form_one rs
  have hkeep : ∀ (r : Rule) (d : Text), r.pattern.Has ('.' :: d) →
      (["Pr".toList].all fun x => decide (x.length ≤ d.length) && !x.isPrefixOf d) = true →
      r.apply (rowsText 1 rs) = rowsText 1 rs :=
    fun r d hr hd => replaceAll_of_not_infix hr (not_infix_of_dotsLead hdots hd)
  have hprintln : (printRule "System.out.println(" "fmt.Println(").apply (rowsText 0 rs) =
      rowsText 1 rs := replaceAll_rowsText_of_line (by decide) takesLine_printlnRule rs
  have hprint : (printRule "System.out.print(" "fmt.Print(").apply (rowsText 1 rs) = rowsText 1 rs :=
    hkeep _ "out.print(" (.left (.left (.text ⟨"System".toList, [], by decide⟩))) (by decide)
  have hprintf : (printRule "System.out.printf(" "fmt.Printf(").apply (rowsText 1 rs) =
      rowsText 1 rs :=
    hkeep _ "out.printf(" (.left (.left (.text ⟨"System".toList, [], by decide⟩))) (by decide)
  simp only [Rule.applyAll, printRules, List.foldl_cons, List.foldl_nil, hprintln, hprint, hprintf]

/-! ## Calls -/

/-- A part of some rows without a line feed is part of one of them. -/
theorem infix_row_of_infix_rowsText {s : Text} (hs : s ≠ []) (hnewline : '\n' ∉ s) :
    ∀ {rs : List Row}, s <:+: rowsText k rs → ∃ r ∈ rs, s <:+: r.text k
  | [], h => absurd (List.infix_nil.mp h) hs
  | [r], h => by
    rw [rowsText, rowsTail, List.append_nil] at h
    exact ⟨r, List.mem_singleton_self r, h⟩
  | r :: r' :: rs, h => by
    rcases infix_or_infix_of_not_mem hnewline h with h | h
    · exact ⟨r, List.mem_cons_self, h⟩
    · have hrest : s <:+: rowsText k (r' :: rs) := h
      obtain ⟨r'', hmem, h⟩ := infix_row_of_infix_rowsText hs hnewline hrest
      exact ⟨r'', List.mem_cons_of_mem r hmem, h⟩

/-- A row that has a dot after the rules for printing has no semicolon. -/
theorem not_mem_semicolon_of_mem_dot {r : Row} (hk : 1 ≤ k) (h : '.' ∈ r.text k) : ';' ∉ r.text k := by
  obtain ⟨lead, line?, trail⟩ := r
  have hdot : ∀ g : Gap, '.' ∉ g.text := not_mem_gap (by decide)
  have hsemicolon : ∀ g : Gap, ';' ∉ g.text := not_mem_gap (by decide)
  cases line? with
  | none => simp [Row.text, hdot] at h
  | some l =>
    simp only [Row.text, Option.elim_some, List.mem_append, hdot, hsemicolon, false_or, or_false] at h ⊢
    by_cases hprint : ∃ value, l = .simple (.print value)
    · obtain ⟨value, rfl⟩ := hprint
      have hturn : (Line.simple (.print value)).turn ≤ k := hk
      apply not_mem_form (by decide)
      rw [Line.tokens, if_pos hturn]
      rfl
    · exact absurd h (not_mem_form (by decide) (marksAll_dot (not_exists.mp hprint)))

/-- The rule for calls finds nothing when the lines that print have been taken. -/
theorem apply_callRule (hk : 1 ≤ k) (rs : List Row) :
    callRule.apply (rowsText k rs) = rowsText k rs := by
  have hdot : callRule.pattern.Has ['.'] :=
    .left (.left (.left (.left (.right (.text List.infix_rfl)))))
  have hend : callRule.pattern.Has [')', ';'] := .right (.text List.infix_rfl)
  have hnewline : callRule.pattern.avoids '\n' = true := by decide
  apply replaceFrom_of_forall_none
  intro post hpost b offset
  rw [Option.eq_none_iff_forall_not_mem]
  intro m hm
  obtain ⟨-, hrest, g, hfits, -⟩ := fits_of_matchAt? hm
  have hmemDot : '.' ∈ m.span.text := (hdot _ g hfits).subset List.mem_cons_self
  have hmemEnd : ';' ∈ m.span.text := (hend _ g hfits).subset (by simp)
  have hpart : m.span.text <:+: rowsText k rs := by
    refine List.IsInfix.trans ?_ hpost.isInfix
    rw [show post = m.span.text ++ m.span.stop.rest from hrest]
    exact List.infix_append [] _ _
  obtain ⟨r, -, hr⟩ := infix_row_of_infix_rowsText (List.ne_nil_of_mem hmemDot)
    (not_mem_of_avoids hnewline _ g hfits) hpart
  exact not_mem_semicolon_of_mem_dot hk (hr.subset hmemDot) (hr.subset hmemEnd)

end GoDraft
