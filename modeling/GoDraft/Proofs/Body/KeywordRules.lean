import GoDraft.Body.Rules
import GoDraft.Proofs.Body.Rows

/-!
# GoDraft — rules led by a keyword

The rules for blocks and results begin with a keyword. Among the lines of a text they find the lines of
their own kind and nothing else.
-/

namespace GoDraft

open Pattern

/-! ## Lines and rules -/

variable {p : Pattern} {f : Match → Text} {k k' : Nat} {l : Line}

/-- A line that a rule skips stays as it is. -/
theorem takesLine_of_skips (hform : l.form k' = l.form k)
    (hskip : ∀ (g : Gap) (rs : List Row) (b : Option Char), b.any isWordChar = false →
      p.Skips b (l.form k) (g.text ++ rowsTail k rs)) : TakesLine p f k k' l := by
  intro g rs b offset hb
  rw [hform]
  exact replaceFrom_skips f (hskip g rs b hb) offset

/-- A line that a rule matches as a whole becomes what the rule makes of it. -/
theorem takesLine_of_first {n : Notes}
    (hfirst : ∀ (b : Option Char) (tail : Text), b.any isWordChar = false → EndsLine tail →
      ∃ b', p.First ⟨b, l.form k ++ tail, []⟩ ⟨b', tail, n⟩)
    (hout : ∀ (m : Match) (offset : Nat), m.Is offset (l.form k) n → f m = l.form k') :
    TakesLine p f k k' l := by
  intro g rs b offset hb
  obtain ⟨b', h⟩ := hfirst b _ hb (endsLine_rows g k rs)
  exact replaceFrom_first (l.form_ne_nil k) h rfl fun m hm => hout m offset hm

theorem first_keyword {kw t : Text} {b : Option Char} {q : Pattern} {g : Notes} {u : View}
    (hkw : isPlainWord kw = true) (hb : b.any isWordChar = false)
    (h : q.First ⟨lastOf b kw, t, g⟩ u) : (wordEdge ++ (text kw ++ q)).First ⟨b, kw ++ t, g⟩ u := by
  have hedge : (View.mk b (kw ++ t) g).isWordEdge = true := by
    cases kw with
    | nil => exact absurd hkw Bool.false_ne_true
    | cons c kw =>
      have hc : isWordChar c = true := by
        simp only [isPlainWord, List.all_cons, Bool.and_eq_true, List.elem_eq_mem,
          decide_eq_true_eq] at hkw
        exact isWordChar_of_mem_nameChars hkw.2.1
      simp [View.isWordEdge, hb, hc]
  exact .seq (.wordEdge hedge) (.seq (.text kw t b g) h)

/-- A line that begins with the keyword of a rule and is matched as a whole. -/
theorem takesLine_of_keyword {kw : Text} {q : Pattern} {n : Notes} (rest : Text → Text)
    (hviews : ∀ v, p.views v = (wordEdge ++ (text kw ++ q)).views v) (hkw : isPlainWord kw = true)
    (hform : ∀ tail, l.form k ++ tail = kw ++ rest tail)
    (hfirst : ∀ (b : Option Char) (tail : Text), EndsLine tail →
      ∃ b', q.First ⟨b, rest tail, []⟩ ⟨b', tail, n⟩)
    (hout : ∀ (m : Match) (offset : Nat), m.Is offset (l.form k) n → f m = l.form k') :
    TakesLine p f k k' l := by
  refine takesLine_of_first ?_ hout
  intro b tail hb htail
  obtain ⟨b', h⟩ := hfirst (lastOf b kw) tail htail
  refine ⟨b', ?_⟩
  rw [hform, First, hviews]
  exact first_keyword hkw hb h

/-- A rule that takes the header of a loop also takes it behind the end of a block. -/
theorem TakesLine.joint {c : Condition} (h : TakesLine p f k k' (.opening (.loop c)))
    (hp : p.rejectsAll "\x7d \t\n" = true) (gap : Gap) : TakesLine p f k k' (.joint gap c) := by
  intro g rs b offset _
  have hgap : p.rejectsAll " \t\n" = true := by
    simp only [rejectsAll, Bool.and_eq_true, List.all_eq_true] at hp ⊢
    exact ⟨hp.1, fun c hc => hp.2 c (List.mem_cons_of_mem _ hc)⟩
  have hbrace : p.matchAt? ⟨b, offset,
      '}' :: (gap.text ++ ((Line.opening (.loop c)).form k ++ (g.text ++ rowsTail k rs)))⟩ = none :=
    matchAt?_eq_none_iff.mpr (rejects_of_rejectsAll hp (by decide) _ rfl)
  have hword : (lastOf (some '}') gap.text).any isWordChar = false := by
    by_cases hnil : gap.text = []
    · rw [hnil]
      decide
    · obtain ⟨d, hd, hlast⟩ := lastOf_mem (some '}') hnil
      rw [hlast]
      exact isWordChar_of_isGap (gap.isGap d hd)
  rw [Line.form_joint, Line.form_joint, List.cons_append, List.append_assoc, replaceFrom_none hbrace,
    replaceFrom_gap hgap, h g rs _ _ hword]
  simp only [List.cons_append, List.append_assoc, lastOf_cons, lastOf_append, Text.size_cons,
    Text.size_append, Nat.add_assoc]

/-- A rule led by a keyword skips the lines that lack it. -/
theorem Pattern.KeywordLed.takesLine {kw : Text} (hp : p.KeywordLed kw) (hkw : kw ∈ controlWords)
    (hform : l.form k' = l.form k) (hlacks : lacks kw (l.tokens k) = true) : TakesLine p f k k' l := by
  apply takesLine_of_skips hform
  intro g rs b _
  rw [← l.spell_tokens]
  exact hp.skips_spell hkw (endsLine_rows g k rs).stopsAt_word (l.isSpaced_tokens k) hlacks

/-! ## Conditions -/

/-- The characters of conditions. -/
def conditionChars : Text := nameChars ++ " <>=!"

theorem Comparison.mem_conditionChars (o : Comparison) : ∀ d ∈ o.text, d ∈ conditionChars := by
  cases o <;> decide

theorem Condition.mem_conditionChars (c : Condition) : ∀ d ∈ c.text, d ∈ conditionChars := by
  intro d hd
  have hspace : ∀ d ∈ " ".toList, d ∈ conditionChars := by decide
  have hname : ∀ n : Name, ∀ d ∈ n.text, d ∈ conditionChars := fun n d hd =>
    List.mem_append_left _ (n.plain d hd)
  simp only [Condition.text, List.mem_append] at hd
  rcases hd with (((hd | hd) | hd) | hd) | hd
  · exact hname _ d hd
  · exact hspace d hd
  · exact c.comparison.mem_conditionChars d hd
  · exact hspace d hd
  · exact hname _ d hd

@[simp] theorem lacks_conditionTokens (kw : Text) (c : Condition) (ts : List Token) :
    lacks kw (Line.conditionTokens c ts) = lacks kw ts := by
  simp [Line.conditionTokens]

@[simp] theorem lacks_argumentTokens (kw : Text) : ∀ arguments : List Name,
    lacks kw (Line.argumentTokens arguments) = true
  | [] => rfl
  | [_] => rfl
  | _ :: n :: ns => lacks_argumentTokens kw (n :: ns)

/-! ## Parts of a match -/

section Parts

variable {t : Text} {b : Option Char} {g : Notes}

theorem stopsAt_of_plain {accepts : Char → Bool} (h : (nameChars.all fun c => !accepts c) = true)
    {w : Text} (hne : w ≠ []) (hw : ∀ c ∈ w, c ∈ nameChars) (t : Text) :
    stopsAt accepts (w ++ t) = true := by
  obtain ⟨c, rest, rfl⟩ := List.exists_cons_of_ne_nil hne
  rw [List.cons_append, stopsAt_cons]
  exact List.all_eq_true.mp h c (hw c List.mem_cons_self)

theorem Name.stopsAt_blank (n : Name) (t : Text) : stopsAt isBlank (n.text ++ t) = true :=
  stopsAt_of_plain (by decide) n.nonempty n.plain t

theorem Name.first_word (n : Name) (ht : stopsAt isWordChar t = true) :
    word.First ⟨b, n.text ++ t, g⟩ ⟨lastOf b n.text, t, g⟩ :=
  First.run1 n.nonempty (fun c hc => isWordChar_of_mem_nameChars (n.plain c hc)) ht b g

theorem first_space (ht : stopsAt isBlank t = true) :
    blanks.First ⟨b, ' ' :: t, g⟩ ⟨some ' ', t, g⟩ :=
  First.run (s := [' ']) (by decide) ht b g

theorem first_space1 (ht : stopsAt isBlank t = true) :
    blanks1.First ⟨b, ' ' :: t, g⟩ ⟨some ' ', t, g⟩ :=
  First.run1 (s := [' ']) (by decide) (by decide) ht b g

theorem first_noSpace (ht : stopsAt isBlank t = true) : blanks.First ⟨b, t, g⟩ ⟨b, t, g⟩ :=
  First.run (s := []) (by decide) ht b g

end Parts

/-! ## Conditional blocks and loops -/

/-- A condition in parentheses and an opening brace. -/
def conditionBlock : Pattern :=
  blanks ++ (text "(" ++ (group 1 someOfLine ++ (text ")" ++ (blanks ++ text "\x7b"))))

theorem views_ifRule (v : View) :
    ifRule.pattern.views v = (wordEdge ++ (text "if" ++ conditionBlock)).views v := by
  simp only [ifRule, views_assoc, conditionBlock]

theorem views_whileRule (v : View) :
    whileRule.pattern.views v = (wordEdge ++ (text "while" ++ conditionBlock)).views v := by
  simp only [whileRule, views_assoc, conditionBlock]

theorem keywordLed_ifRule : ifRule.pattern.KeywordLed "if" where
  views := ⟨conditionBlock, by decide, views_ifRule⟩
  head := ⟨_, _, rfl, by decide⟩
  plain := by decide

theorem keywordLed_whileRule : whileRule.pattern.KeywordLed "while" where
  views := ⟨conditionBlock, by decide, views_whileRule⟩
  head := ⟨_, _, rfl, by decide⟩
  plain := by decide

theorem rejectsAll_closeBlock :
    (text ")" ++ (blanks ++ text "\x7b")).rejectsAll (conditionChars ++ ";\t\n") = true := by
  decide

theorem Condition.first_lazy (c : Condition) {q : Pattern} (hq : q.rejectsAll conditionChars = true)
    {b : Option Char} {t : Text} {g : Notes} {u : View}
    (h : q.First ⟨lastOf b c.text, t, (1, c.text) :: g⟩ u) :
    (group 1 someOfLine ++ q).First ⟨b, c.text ++ t, g⟩ u := by
  have hall : (conditionChars.all fun d => !"\n".toList.elem d) = true := by decide
  exact First.lazy (fun d hd => List.all_eq_true.mp hall d (c.mem_conditionChars d hd))
    (fun d hd => rejects_of_rejectsAll hq (c.mem_conditionChars d hd)) h

theorem first_conditionBlock (c : Condition) (b : Option Char) (tail : Text) :
    conditionBlock.First ⟨b, ' ' :: '(' :: (c.text ++ ')' :: ' ' :: '{' :: tail), []⟩
      ⟨some '{', tail, [(1, c.text)]⟩ := by
  refine .seq (first_space rfl) (.seq (First.text ['('] _ _ _) (c.first_lazy (by decide) ?_))
  exact .seq (First.text [')'] _ _ _) (.seq (first_space rfl) (First.text ['{'] _ _ _))

/-- A condition that no block follows. -/
theorem views_conditionBlock_of_semicolon (c : Condition) (b : Option Char) {tail : Text}
    (htail : EndsLine tail) :
    conditionBlock.views ⟨b, ' ' :: '(' :: (c.text ++ ')' :: ';' :: tail), []⟩ = [] := by
  have hclose := rejectsAll_closeBlock
  have hsemicolon : (blanks ++ text "\x7b").Rejects ';' := rejects_of_canStart (by decide) (by decide)
  have hrest : (someOfLine ++ (text ")" ++ (blanks ++ text "\x7b"))).views
      ⟨some '(', c.text ++ ')' :: ';' :: tail, []⟩ = [] := by
    apply views_lazy_of_skips
    · exact skips_of_forall_rejects (fun d hd => rejects_of_rejectsAll hclose
        (List.mem_append_left _ (c.mem_conditionChars d hd))) _ _
    · apply views_lazy_of_skips (s := [')', ';'])
      · refine ⟨?_, rejects_of_rejectsAll hclose (by decide) _ rfl, trivial⟩
        exact (views_text_seq [')'] _ _ _ _).trans (hsemicolon _ rfl)
      · exact htail.views_lazy_seq (by decide) _
  have hopen : (text "(" ++ (someOfLine ++ (text ")" ++ (blanks ++ text "\x7b")))).Rejects ' ' :=
    rejects_of_canStart (by decide) (by decide)
  apply views_eq_nil_of_bare
  refine (views_blanks_space hopen rfl b []).trans ?_
  exact (views_text_seq ['('] _ _ _ _).trans hrest

theorem lacks_if (h : l.turn ≠ 3) : lacks "if" (l.tokens 2) = true := by
  cases l with
  | simple s => cases s <;> simp [Line.tokens, Line.turn, Line.javaTokens, Line.recastTokens]
  | opening o => cases o <;> simp_all [Line.tokens, Line.turn, Line.javaTokens]
  | _ => simp [Line.tokens, Line.turn, Line.javaTokens, Line.recastTokens]

/-- The rule for conditional blocks takes the lines that open one. -/
theorem takesLine_ifRule (l : Line) : TakesLine ifRule.pattern ifRule.template.fill 2 3 l := by
  by_cases h : l.turn = 3
  · have hl := l.eq_of_turn
    rw [h] at hl
    obtain ⟨c, rfl⟩ := hl
    apply takesLine_of_keyword (fun tail => ' ' :: '(' :: (c.text ++ ')' :: ' ' :: '{' :: tail))
      views_ifRule (by decide)
    · intro tail
      rw [← Line.spell_tokens]
      simp [Line.tokens, Line.turn, Line.javaTokens, Line.spell_conditionTokens, Token.text]
    · exact fun b tail _ => ⟨_, first_conditionBlock c b tail⟩
    · intro m offset hm
      have hcondition : m.group 1 = c.text := hm.group 0
      rw [← Line.spell_tokens]
      simp [Line.tokens, Line.turn, Line.recastTokens, Line.spell_conditionTokens, Token.text, ifRule,
        Template.fill, hcondition]
  · exact keywordLed_ifRule.takesLine (by decide) (Line.form_succ_of_ne h) (lacks_if h)

theorem lacks_while (h : l.turn ≠ 4) (h' : l.turn ≠ 7) : lacks "while" (l.tokens 3) = true := by
  cases l with
  | simple s => cases s <;> simp [Line.tokens, Line.turn, Line.javaTokens, Line.recastTokens]
  | opening o => cases o <;> simp_all [Line.tokens, Line.turn, Line.javaTokens, Line.recastTokens]
  | _ => simp_all [Line.tokens, Line.turn, Line.javaTokens, Line.recastTokens]

/-- The end of a loop with its condition last does not open a loop. -/
theorem takesLine_whileRule_closingWhile (c : Condition) :
    TakesLine whileRule.pattern whileRule.template.fill 3 4 (.closingWhile c) := by
  have hp := keywordLed_whileRule
  have hform : (Line.closingWhile c).form 3 =
      ['}', ' '] ++ ("while".toList ++ spell (.mark ' ' :: .mark '('
        :: Line.conditionTokens c [.mark ')', .mark ';'])) := by
    rw [← Line.spell_tokens]
    simp [Line.tokens, Line.turn, Line.javaTokens, Token.text]
  apply takesLine_of_skips (Line.form_succ_of_ne (by simp [Line.turn]))
  intro g rs b _
  have htail := endsLine_rows g 3 rs
  rw [hform]
  apply skips_append
  · exact skips_of_forall_rejects (fun d hd => hp.rejects (by revert d; decide)) b _
  · apply skips_append
    · apply hp.skips_keyword
      rw [views_whileRule]
      apply views_edge_text_eq_nil
      have hfail := views_conditionBlock_of_semicolon c (some 'e') htail
      simpa [Line.spell_conditionTokens, Token.text] using hfail
    · apply hp.skips_spell (by decide) htail.stopsAt_word
      · simp only [isSpaced, startsMark, Line.isSpaced_conditionTokens]
        decide
      · simp

/-- The rule for loops takes the lines that open one with its condition. -/
theorem takesLine_whileRule (l : Line) :
    TakesLine whileRule.pattern whileRule.template.fill 3 4 l := by
  have hl := l.eq_of_turn
  by_cases h : l.turn = 4
  · rw [h] at hl
    obtain ⟨c, hl⟩ := hl
    have hloop : TakesLine whileRule.pattern whileRule.template.fill 3 4 (.opening (.loop c)) := by
      apply takesLine_of_keyword (fun tail => ' ' :: '(' :: (c.text ++ ')' :: ' ' :: '{' :: tail))
        views_whileRule (by decide)
      · intro tail
        rw [← Line.spell_tokens]
        simp [Line.tokens, Line.turn, Line.javaTokens, Line.spell_conditionTokens, Token.text]
      · exact fun b tail _ => ⟨_, first_conditionBlock c b tail⟩
      · intro m offset hm
        have hcondition : m.group 1 = c.text := hm.group 0
        rw [← Line.spell_tokens]
        simp [Line.tokens, Line.turn, Line.recastTokens, Line.spell_conditionTokens, Token.text,
          whileRule, Template.fill, hcondition]
    rcases hl with rfl | ⟨gap, rfl⟩
    · exact hloop
    · exact hloop.joint (by decide) gap
  · by_cases h' : l.turn = 7
    · rw [h'] at hl
      obtain ⟨c, rfl⟩ := hl
      exact takesLine_whileRule_closingWhile c
    · exact keywordLed_whileRule.takesLine (by decide) (Line.form_succ_of_ne h) (lacks_while h h')

/-! ## Counting loops -/

/-- The clauses of a counting loop in parentheses and an opening brace. -/
def countBlock : Pattern :=
  blanks ++ (text "(" ++ (blanks ++ (group 1 word ++ (blanks1 ++ (group 2 word ++ (blanks ++ (text "="
    ++ (blanks ++ (group 3 word ++ (blanks ++ (text ";" ++ (blanks ++ (group 4 word ++ (blanks
    ++ (group 5 (many1 (oneOf "<>=!")) ++ (blanks ++ (group 6 (word ++ many (text "." ++ word))
    ++ (blanks ++ (text ";" ++ (blanks ++ (group 7 word
    ++ (group 8 (text "++" ||| text "--" ||| text "+=1" ||| text "-=1")
    ++ (blanks ++ (text ")" ++ (blanks ++ text "\x7b")))))))))))))))))))))))))

theorem views_forRule (v : View) :
    forRule.pattern.views v = (wordEdge ++ (text "for" ++ countBlock)).views v := by
  simp only [forRule, views_assoc, countBlock]

theorem first_countBlock (type name start : Name) (c : Condition) (next : Name) (b : Option Char)
    (tail : Text) :
    countBlock.First ⟨b, ' ' :: '(' :: (type.text ++ ' ' :: (name.text ++ ' ' :: '=' :: ' ' ::
        (start.text ++ ';' :: ' ' :: (c.text ++ ';' :: ' ' :: (next.text ++ '+' :: '+' :: ')' :: ' ' ::
        '{' :: tail))))), []⟩
      ⟨some '{', tail, [(8, ['+', '+']), (7, next.text), (6, c.right.text), (5, c.comparison.text),
        (4, c.left.text), (3, start.text), (2, name.text), (1, type.text)]⟩ := by
  have hcondition : ∀ t, c.text ++ t =
      c.left.text ++ ' ' :: (c.comparison.text ++ ' ' :: (c.right.text ++ t)) := by
    simp [Condition.text]
  have hsign : ∀ t b g, (many1 (oneOf "<>=!")).First ⟨b, c.comparison.text ++ ' ' :: t, g⟩
      ⟨lastOf b c.comparison.text, ' ' :: t, g⟩ := by
    intro t b g
    apply First.run1 _ _ rfl
    · cases c.comparison <;> decide
    · cases c.comparison <;> decide
  have hright : ∀ t b g, (word ++ many (text "." ++ word)).First ⟨b, c.right.text ++ ';' :: t, g⟩
      ⟨lastOf b c.right.text, ';' :: t, g⟩ := by
    intro t b g
    have hdot : (text "." ++ word).Rejects ';' := rejects_of_canStart (by decide) (by decide)
    refine .seq (c.right.first_word rfl) ?_
    exact First.many (s := []) (fun _ h => absurd h List.not_mem_nil) (hdot _ rfl)
  have hsignBlank : ∀ t, stopsAt isBlank (c.comparison.text ++ t) = true := by
    intro t
    cases c.comparison <;> rfl
  -- each part of the pattern takes its part of the header at once
  rw [hcondition]
  refine .seq (first_space rfl) (.seq (First.text ['('] _ _ _) ?_)
  refine .seq (first_noSpace (type.stopsAt_blank _)) (.seq (.group (type.first_word rfl) 1) ?_)
  refine .seq (first_space1 (name.stopsAt_blank _)) (.seq (.group (name.first_word rfl) 2) ?_)
  refine .seq (first_space rfl) (.seq (First.text ['='] _ _ _) (.seq (first_space (start.stopsAt_blank _)) ?_))
  refine .seq (.group (start.first_word rfl) 3) (.seq (first_noSpace rfl) (.seq (First.text [';'] _ _ _) ?_))
  refine .seq (first_space (c.left.stopsAt_blank _)) (.seq (.group (c.left.first_word rfl) 4) ?_)
  refine .seq (first_space (hsignBlank _)) (.seq (.group (hsign _ _ _) 5) ?_)
  refine .seq (first_space (c.right.stopsAt_blank _)) (.seq (.group (hright _ _ _) 6) ?_)
  refine .seq (first_noSpace rfl) (.seq (First.text [';'] _ _ _) ?_)
  refine .seq (first_space (next.stopsAt_blank _)) (.seq (.group (next.first_word rfl) 7) ?_)
  refine .seq (.group (s := ['+', '+']) (.altLeft (.altLeft (.altLeft (First.text ['+', '+'] _ _ _)))) 8) ?_
  refine .seq (first_noSpace rfl) (.seq (First.text [')'] _ _ _) ?_)
  exact .seq (first_space rfl) (First.text ['{'] _ _ _)

theorem keywordLed_forRule : forRule.pattern.KeywordLed "for" where
  views := ⟨countBlock, by decide, views_forRule⟩
  head := ⟨_, _, rfl, by decide⟩
  plain := by decide

theorem lacks_for (h : l.turn ≠ 4) (h' : l.turn ≠ 5) : lacks "for" (l.tokens 4) = true := by
  cases l with
  | simple s => cases s <;> simp [Line.tokens, Line.turn, Line.javaTokens, Line.recastTokens]
  | opening o => cases o <;> simp_all [Line.tokens, Line.turn, Line.recastTokens]
  | _ => simp_all [Line.tokens, Line.turn, Line.javaTokens, Line.recastTokens]

/-- A loop that has its Go form is no counting loop. -/
theorem takesLine_forRule_loop (c : Condition) :
    TakesLine forRule.pattern forRule.template.fill 4 5 (.opening (.loop c)) := by
  have hp := keywordLed_forRule
  have hform : (Line.opening (.loop c)).form 4 =
      "for".toList ++ spell (.mark ' ' :: Line.conditionTokens c [.mark ' ', .mark '{']) := by
    rw [← Line.spell_tokens]
    simp [Line.tokens, Line.turn, Line.recastTokens, Token.text]
  -- behind `for` stands a name, not the parenthesis of a counting loop
  have hopen : ∀ (q : Pattern) (t : Text) (b : Option Char),
      (text "(" ++ q).views ⟨b, c.left.text ++ t, []⟩ = [] := by
    intro q t b
    apply views_seq_of_eq_nil
    exact views_eq_nil_of_head (by decide) (stopsAt_of_plain (by decide) c.left.nonempty c.left.plain t)
  apply takesLine_of_skips (Line.form_succ_of_ne (by simp [Line.turn]))
  intro g rs b _
  have htail := endsLine_rows g 4 rs
  rw [hform]
  apply skips_append
  · apply hp.skips_keyword
    rw [views_forRule]
    apply views_edge_text_eq_nil
    have hspace : ∀ t, countBlock.views ⟨some 'r', ' ' :: (c.left.text ++ t), []⟩ = [] := by
      intro t
      refine (views_blanks_space ?_ (c.left.stopsAt_blank t) _ _).trans (hopen _ t _)
      exact rejects_of_canStart (by decide) (by decide)
    simpa [Line.spell_conditionTokens, Condition.text, Token.text] using hspace _
  · apply hp.skips_spell (by decide) htail.stopsAt_word
    · simp only [isSpaced, startsMark, Line.isSpaced_conditionTokens]
      decide
    · simp

/-- The rule for counting loops takes the lines that open one. -/
theorem takesLine_forRule (l : Line) : TakesLine forRule.pattern forRule.template.fill 4 5 l := by
  have hl := l.eq_of_turn
  by_cases h : l.turn = 5
  · rw [h] at hl
    obtain ⟨type, name, start, c, next, rfl⟩ := hl
    apply takesLine_of_keyword (fun tail => ' ' :: '(' :: (type.text ++ ' ' :: (name.text ++ ' ' :: '='
      :: ' ' :: (start.text ++ ';' :: ' ' :: (c.text ++ ';' :: ' ' :: (next.text ++ '+' :: '+' :: ')'
      :: ' ' :: '{' :: tail)))))) views_forRule (by decide)
    · intro tail
      rw [← Line.spell_tokens]
      simp [Line.tokens, Line.turn, Line.javaTokens, Line.spell_conditionTokens, Token.text]
    · exact fun b tail _ => ⟨_, first_countBlock type name start c next b tail⟩
    · intro m offset hm
      have hname : m.group 2 = name.text := hm.group 1
      have hstart : m.group 3 = start.text := hm.group 2
      have hleft : m.group 4 = c.left.text := hm.group 3
      have hsign : m.group 5 = c.comparison.text := hm.group 4
      have hright : m.group 6 = c.right.text := hm.group 5
      have hnext : m.group 7 = next.text := hm.group 6
      have hstep : m.group 8 = ['+', '+'] := hm.group 7
      rw [← Line.spell_tokens]
      simp [Line.tokens, Line.turn, Line.recastTokens, Line.spell_conditionTokens, Token.text, forRule,
        Template.fill, Condition.text, hname, hstart, hleft, hsign, hright, hnext, hstep]
  · by_cases h' : l.turn = 4
    · rw [h'] at hl
      obtain ⟨c, rfl | ⟨gap, rfl⟩⟩ := hl
      · exact takesLine_forRule_loop c
      · exact (takesLine_forRule_loop c).joint (by decide) gap
    · exact keywordLed_forRule.takesLine (by decide) (Line.form_succ_of_ne h) (lacks_for h' h)

/-! ## Loops with their condition last -/

theorem views_doRule (v : View) :
    doRule.pattern.views v = (wordEdge ++ (text "do" ++ (blanks ++ text "\x7b"))).views v := by
  simp only [doRule, views_assoc]

theorem keywordLed_doRule : doRule.pattern.KeywordLed "do" where
  views := ⟨_, by decide, views_doRule⟩
  head := ⟨_, _, rfl, by decide⟩
  plain := by decide

theorem lacks_do (h : l.turn ≠ 6) : lacks "do" (l.tokens 5) = true := by
  cases l with
  | simple s => cases s <;> simp [Line.tokens, Line.turn, Line.javaTokens, Line.recastTokens]
  | opening o => cases o <;> simp [Line.tokens, Line.turn, Line.recastTokens]
  | _ => simp_all [Line.tokens, Line.turn, Line.javaTokens, Line.recastTokens]

/-- The rule for loops with their condition last takes the lines that open one. -/
theorem takesLine_doRule (l : Line) : TakesLine doRule.pattern doRule.template.fill 5 6 l := by
  by_cases h : l.turn = 6
  · have hl := l.eq_of_turn
    rw [h] at hl
    subst hl
    apply takesLine_of_keyword (fun tail => ' ' :: '{' :: tail) views_doRule (by decide)
    · intro tail
      rw [← Line.spell_tokens]
      simp [Line.tokens, Line.turn, Line.javaTokens, Token.text]
    · exact fun b tail _ => ⟨_, .seq (first_space rfl) (First.text ['{'] tail _ [])⟩
    · intro m offset _
      rw [← Line.spell_tokens]
      simp [Line.tokens, Line.turn, Line.recastTokens, Token.text, doRule, Template.fill]
  · exact keywordLed_doRule.takesLine (by decide) (Line.form_succ_of_ne h) (lacks_do h)

/-- What follows the keyword at the end of a loop with its condition last. -/
def conditionEnd : Pattern :=
  blanks ++ (text "(" ++ (group 1 someOfLine ++ (text ")" ++ (blanks ++ text ";"))))

theorem views_untilRule (v : View) : untilRule.pattern.views v =
    (text "\x7d" ++ (blanks ++ (text "while" ++ conditionEnd))).views v := by
  simp only [untilRule, views_assoc, conditionEnd]

/-- Whether blanks lead to a keyword. -/
def leadsTo (kw : Text) : List Token → Bool
  | .mark c :: ts => isBlank c && leadsTo kw ts
  | .keyword w :: _ => w == kw
  | _ => false

theorem ne_of_leadsTo {kw : Text} (hkw : kw ∈ controlWords) {tok : Token} {ts : List Token}
    (hw : tok.isWord = true) (h : leadsTo kw (tok :: ts) = false) : tok.text ≠ kw := by
  cases tok with
  | name n =>
    rintro rfl
    exact n.notControl hkw
  | keyword w => simpa [leadsTo, Token.text] using h
  | mark c => exact absurd hw Bool.false_ne_true

/-- Blanks do not lead from another word to the keyword. -/
theorem views_blanks_word {tok : Token} {ts : List Token} (hspaced : isSpaced (tok :: ts) = true)
    (hw : tok.isWord = true) (hne : tok.text ≠ "while".toList) {tail : Text}
    (htail : stopsAt isWordChar tail = true) (b : Option Char) :
    (blanks ++ (text "while" ++ conditionEnd)).views ⟨b, spell (tok :: ts) ++ tail, []⟩ = [] := by
  have hplain := Token.plain_of_isWord hspaced hw
  rw [spell_cons, List.append_assoc, blanks,
    views_run_of_stopsAt (stopsAt_of_plain (by decide) (Token.text_ne_nil hspaced) hplain _)]
  exact views_word_eq_nil (by decide) (by decide) hplain hne (stopsAt_of_isWord hspaced hw htail)

theorem leadsTo_tokens (l : Line) : leadsTo "while" (l.tokens 6) = false := by
  have hbrace : isBlank '}' = false := by decide
  cases l with
  | simple s => cases s <;> simp [Line.tokens, Line.turn, Line.javaTokens, Line.recastTokens, leadsTo]
  | opening o => cases o <;> simp [Line.tokens, Line.turn, Line.recastTokens, leadsTo]
  | _ => simp [Line.tokens, Line.turn, Line.javaTokens, Line.recastTokens, leadsTo, hbrace]

/-- Blanks do not lead to the keyword from among tokens that do not lead there, nor from the end of a
line: no later line begins with it. -/
theorem views_leadsTo (g : Gap) (rs : List Row) :
    ∀ {ts : List Token} {b : Option Char}, isSpaced ts = true → leadsTo "while" ts = false →
      (blanks ++ (text "while" ++ conditionEnd)).views ⟨b, spell ts ++ (g.text ++ rowsTail 6 rs), []⟩ = []
  | [], b, _, _ => by
    -- behind the last token the blanks go on to a later line, and none begins with the keyword
    apply views_blanks_rows (by decide)
    intro l t b ht
    obtain ⟨tok, ts, htokens, htok⟩ := l.exists_tokens 6
    have hspaced := l.isSpaced_tokens 6
    have hlead := leadsTo_tokens l
    rw [← l.spell_tokens]
    rw [htokens] at hspaced hlead ⊢
    rcases htok with hw | rfl
    · exact views_blanks_word hspaced hw (ne_of_leadsTo (by decide) hw hlead) ht.stopsAt_word b
    · have hbrace : '}' ≠ 'w' := by decide
      exact (views_run_of_stopsAt rfl _ _ _).trans (text_rejects hbrace _ _ _ rfl)
  | tok :: ts, b, hspaced, h => by
    by_cases hw : tok.isWord = true
    · exact views_blanks_word hspaced hw (ne_of_leadsTo (by decide) hw h)
        (endsLine_rows g 6 rs).stopsAt_word b
    · cases tok with
      | mark c =>
        rw [leadsTo] at h
        have hw : c ≠ 'w' := by
          rw [isSpaced, Bool.and_eq_true, Bool.not_eq_true'] at hspaced
          rintro rfl
          exact absurd hspaced.1 (by decide)
        have hreject : (text "while" ++ conditionEnd).Rejects c := text_rejects hw _ _
        rw [spell_cons, Token.text, List.cons_append, List.nil_append, List.cons_append, blanks,
          views_run_cons (fun _ => hreject)]
        split
        · rename_i hc
          rw [hc, Bool.true_and] at h
          exact views_leadsTo g rs (isSpaced_of_cons hspaced) h
        · exact hreject _ rfl
      | _ => exact absurd rfl hw

/-- Whether a row of tokens does not begin with a brace from which blanks lead to the keyword. -/
def notUntil : List Token → Bool
  | .mark c :: ts => c != '}' || !leadsTo "while" ts
  | _ => true

theorem everywhere_notUntil_marks {m : Text} (hm : '}' ∉ m) (ts : List Token) :
    everywhere notUntil (marks m ++ ts) = everywhere notUntil ts := by
  induction m with
  | nil => rfl
  | cons c m ih =>
    rw [List.mem_cons, not_or] at hm
    have hfirst : notUntil (.mark c :: (marks m ++ ts)) = true := by
      simp [notUntil, Ne.symm hm.1]
    rw [marks, List.map_cons, List.cons_append, ← marks, everywhere, hfirst, ih hm.2]
    rfl

theorem everywhere_notUntil_condition (c : Condition) (ts : List Token) :
    everywhere notUntil (Line.conditionTokens c ts) = everywhere notUntil ts := by
  have hsign : '}' ∉ c.comparison.text := by
    cases c.comparison <;> decide
  simp [Line.conditionTokens, everywhere, notUntil, everywhere_notUntil_marks hsign]

theorem everywhere_notUntil_arguments (ts : List Token) : ∀ arguments : List Name,
    everywhere notUntil (Line.argumentTokens arguments ++ ts) = everywhere notUntil ts
  | [] => rfl
  | [_] => rfl
  | _ :: n' :: ns => everywhere_notUntil_arguments ts (n' :: ns)

theorem leadsTo_gap (kw : Text) {m : Text} (hm : ∀ c ∈ m, isGap c = true) (ts : List Token) :
    leadsTo kw (marks m ++ ts) = leadsTo kw ts := by
  induction m with
  | nil => rfl
  | cons c m ih =>
    have hblank : isBlank c = true := by
      rcases eq_of_isGap (hm c List.mem_cons_self) with rfl | rfl <;> decide
    rw [marks, List.map_cons, List.cons_append, leadsTo, hblank, ← marks,
      ih fun d hd => hm d (List.mem_cons_of_mem c hd)]
    rfl

theorem everywhere_notUntil_tokens (h : l.turn ≠ 7) : everywhere notUntil (l.tokens 6) = true := by
  cases l with
  | simple s =>
    cases s <;> simp [Line.tokens, Line.turn, Line.javaTokens, Line.recastTokens, everywhere, notUntil,
      everywhere_notUntil_arguments]
  | opening o =>
    cases o <;> simp [Line.tokens, Line.turn, Line.recastTokens, everywhere, notUntil,
      everywhere_notUntil_condition]
  | joint gap c =>
    have hgap : '}' ∉ gap.text := fun h => absurd (gap.isGap _ h) (by decide)
    simp [Line.tokens, Line.turn, Line.recastTokens, everywhere, notUntil, leadsTo_gap _ gap.isGap, leadsTo,
      everywhere_notUntil_marks hgap, everywhere_notUntil_condition]
  | _ => simp_all [Line.tokens, Line.turn, Line.javaTokens, Line.recastTokens, everywhere, notUntil, leadsTo]

theorem first_conditionEnd (c : Condition) (b : Option Char) {tail : Text} :
    conditionEnd.First ⟨b, ' ' :: '(' :: (c.text ++ ')' :: ';' :: tail), []⟩
      ⟨some ';', tail, [(1, c.text)]⟩ := by
  refine .seq (first_space rfl) (.seq (First.text ['('] _ _ _) (c.first_lazy (by decide) ?_))
  exact .seq (First.text [')'] _ _ _) (.seq (first_noSpace rfl) (First.text [';'] _ _ _))

/-- The rule for the ends of loops takes the lines that end one with its condition. -/
theorem takesLine_untilRule (l : Line) :
    TakesLine untilRule.pattern untilRule.template.fill 6 7 l := by
  by_cases h : l.turn = 7
  · have hl := l.eq_of_turn
    rw [h] at hl
    obtain ⟨c, rfl⟩ := hl
    -- the line is a match from its brace on
    apply takesLine_of_first (n := [(1, c.text)])
    · intro b tail _ _
      have hform : (Line.closingWhile c).form 6 ++ tail =
          '}' :: ' ' :: ("while".toList ++ ' ' :: '(' :: (c.text ++ ')' :: ';' :: tail)) := by
        rw [← Line.spell_tokens]
        simp [Line.tokens, Line.turn, Line.javaTokens, Token.text, Line.spell_conditionTokens]
      refine ⟨some ';', ?_⟩
      rw [hform, First, views_untilRule]
      exact First.seq (First.text ['}'] _ _ _) (.seq (first_space rfl)
        (.seq (First.text "while".toList _ _ _) (first_conditionEnd c _)))
    · intro m offset hm
      have hcondition : m.group 1 = c.text := hm.group 0
      rw [← Line.spell_tokens]
      simp [Line.tokens, Line.turn, Line.recastTokens, Token.text, Line.spell_conditionTokens, untilRule,
        Template.fill, hcondition]
  · apply takesLine_of_skips (Line.form_succ_of_ne h)
    intro g rs b _
    rw [← l.spell_tokens]
    apply skips_congr views_untilRule
    -- no other line has `while` behind a brace with a terminator at its end
    apply skips_spell (fun _ => True) _ trivial (l.isSpaced_tokens 6) (everywhere_notUntil_tokens h)
    intro tok ts b _ hspaced htok
    refine ⟨?_, trivial⟩
    by_cases hw : tok.isWord = true
    · exact skips_of_forall_rejects (fun c hc => rejects_of_rejectsAll
        (rejectsAll_seq (by decide) _) (Token.plain_of_isWord hspaced hw c hc)) b _
    · cases tok with
      | mark c =>
        refine ⟨?_, trivial⟩
        by_cases hc : c = '}'
        · subst hc
          refine (views_text_seq ['}'] _ _ _ _).trans (views_leadsTo g rs (isSpaced_of_cons hspaced) ?_)
          simpa [notUntil] using htok
        · exact text_rejects hc [] _ _ rfl
      | _ => exact absurd rfl hw

/-! ## Results and new objects -/

theorem views_returnRule (v : View) : returnRule.pattern.views v =
    (wordEdge ++ (text "return" ++ (blanks1 ++ (group 1 someOfLine ++ text ";")))).views v := by
  simp only [returnRule, views_assoc]

theorem keywordLed_returnRule : returnRule.pattern.KeywordLed "return" where
  views := ⟨_, by decide, views_returnRule⟩
  head := ⟨_, _, rfl, by decide⟩
  plain := by decide

theorem lacks_return (h : l.turn ≠ 8) : lacks "return" (l.tokens 7) = true := by
  cases l with
  | simple s => cases s <;> simp_all [Line.tokens, Line.turn, Line.javaTokens, Line.recastTokens]
  | opening o => cases o <;> simp [Line.tokens, Line.turn, Line.recastTokens]
  | _ => simp [Line.tokens, Line.turn, Line.javaTokens, Line.recastTokens]

/-- The rule for results takes the lines that give one back. -/
theorem takesLine_returnRule (l : Line) :
    TakesLine returnRule.pattern returnRule.template.fill 7 8 l := by
  by_cases h : l.turn = 8
  · have hl := l.eq_of_turn
    rw [h] at hl
    obtain ⟨value, rfl⟩ := hl
    apply takesLine_of_keyword (n := [(1, value.text)]) (fun tail => ' ' :: (value.text ++ ';' :: tail))
      views_returnRule (by decide)
    · intro tail
      rw [← Line.spell_tokens]
      simp [Line.tokens, Line.turn, Line.javaTokens, Token.text]
    · intro b tail _
      have hline : (nameChars.all fun d => !"\n".toList.elem d) = true := by decide
      have hreject : (text ";").rejectsAll nameChars = true := by decide
      refine ⟨some ';', .seq (first_space1 (value.stopsAt_blank _)) ?_⟩
      exact First.lazy (fun d hd => List.all_eq_true.mp hline d (value.plain d hd))
        (fun d hd => rejects_of_rejectsAll hreject (value.plain d hd)) (First.text [';'] _ _ _)
    · intro m offset hm
      have hvalue : m.group 1 = value.text := hm.group 0
      rw [← Line.spell_tokens]
      simp [Line.tokens, Line.turn, Line.recastTokens, Token.text, returnRule, Template.fill, hvalue]
  · exact keywordLed_returnRule.takesLine (by decide) (Line.form_succ_of_ne h) (lacks_return h)

theorem keywordLed_newObjectRule : newObjectRule.pattern.KeywordLed "new" where
  views := ⟨blanks1 ++ (group 1 word ++ (text "(" ++ (group 2 someOfLine ++ text ")"))), by decide,
    fun v => by simp only [newObjectRule, views_assoc]⟩
  head := ⟨_, _, rfl, by decide⟩
  plain := by decide

/-- No new object is left when the declared ones have been taken. -/
theorem takesLine_newObjectRule (l : Line) :
    TakesLine newObjectRule.pattern newObjectRule.template.fill 9 9 l := by
  apply keywordLed_newObjectRule.takesLine (by decide) rfl
  cases l with
  | simple s => cases s <;> simp [Line.tokens, Line.turn, Line.javaTokens, Line.recastTokens]
  | opening o => cases o <;> simp [Line.tokens, Line.turn, Line.recastTokens]
  | _ => simp [Line.tokens, Line.turn, Line.javaTokens, Line.recastTokens]

theorem keywordLed_throwRule : throwRule.pattern.KeywordLed "throw" where
  views := ⟨blanks1 ++ (text "new" ++ (blanks1 ++ (group 1 word ++ (text "("
      ++ (group 2 someOfLine ++ text ");"))))), by decide,
    fun v => by simp only [throwRule, views_assoc]⟩
  head := ⟨_, _, rfl, by decide⟩
  plain := by decide

/-- No line throws. -/
theorem takesLine_throwRule (l : Line) :
    TakesLine throwRule.pattern throwRule.template.fill 0 0 l := by
  apply keywordLed_throwRule.takesLine (by decide) rfl
  cases l with
  | simple s => cases s <;> simp [Line.tokens, Line.turn, Line.javaTokens, Line.recastTokens]
  | opening o => cases o <;> simp [Line.tokens, Line.turn, Line.javaTokens]
  | _ => simp [Line.tokens, Line.turn, Line.javaTokens, Line.recastTokens]

end GoDraft
