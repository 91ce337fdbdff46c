import GoDraft.Proofs.Body.KeywordRules

/-!
# GoDraft — rules for declarations

The rules for typed declarations and for declared new objects look for two words, a type and a name,
with spaces or tabs between them and an equals sign behind. From the tokens of a line it is seen where
two words can stand so.

* `twoWords`, `views_twoWords` — two words in a row of tokens;
* `takesLine_declaredObjectRule` — declared new objects;
* `recastDeclarations_rowsText` — typed declarations.
-/

namespace GoDraft

open Pattern

variable {k : Nat} {l : Line} {q : Pattern} {tail : Text}

/-! ## Two words -/

theorem gap_eq : gap = many (one isGap) := by
  have h : (fun c => " \t".toList.elem c) = isGap := by
    funext c
    simp [isGap]
    grind
  rw [gap, oneOf, h]

theorem gap1_eq : gap1 = many1 (one isGap) := by
  have h : (fun c => " \t".toList.elem c) = isGap := by
    funext c
    simp [isGap]
    grind
  rw [gap1, oneOf, h]

/-- Whether spaces and tabs lead to a word such that the tokens behind it pass a test. -/
def gapWord (test : List Token → Bool) : List Token → Bool
  | [] => false
  | .mark c :: ts => isGap c && gapWord test ts
  | .name _ :: ts => test ts
  | .keyword _ :: ts => test ts

/-- Whether at least one space or tab leads to a word such that the tokens behind it pass a test. -/
def twoWords (test : List Token → Bool) : List Token → Bool
  | .mark c :: ts => isGap c && gapWord test ts
  | _ => false

section TwoWords

variable {test : List Token → Bool}

/-- A word that what follows cannot go on with is read as a whole. -/
theorem views_word_seq (hq : q.rejectsAll nameChars = true) {w t : Text} (hne : w ≠ [])
    (hw : ∀ c ∈ w, c ∈ nameChars) (ht : stopsAt isWordChar t = true) (b : Option Char) (g : Notes) :
    (word ++ q).views ⟨b, w ++ t, g⟩ = q.views ⟨lastOf b w, t, g⟩ := by
  have hrun := runsTo_many1 hne (fun c hc => isWordChar_of_mem_nameChars (hw c hc)) ht b g
  exact hrun.views_seq fun c hc => rejects_of_rejectsAll hq (hw c hc)

theorem gapWord_of_isWord {tok : Token} (h : tok.isWord = true) (ts : List Token) :
    gapWord test (tok :: ts) = test ts := by
  cases tok with
  | mark c => exact absurd h Bool.false_ne_true
  | _ => rfl

theorem startsMark_of_isWord {tok : Token} {ts : List Token} (h : isSpaced (tok :: ts) = true)
    (hw : tok.isWord = true) : startsMark ts = true := by
  cases tok <;> simp_all [isSpaced, Token.isWord]

theorem views_gapWord (htail : EndsLine tail) (hq : q.rejectsAll nameChars = true)
    (htest : ∀ ts b, isSpaced ts = true → startsMark ts = true → test ts = false →
      q.views ⟨b, spell ts ++ tail, []⟩ = []) :
    ∀ {ts : List Token} {b : Option Char}, isSpaced ts = true → gapWord test ts = false →
      (gap ++ (word ++ q)).views ⟨b, spell ts ++ tail, []⟩ = []
  | [], b, _, _ => htail.views_gap_seq (rejectsAll_seq (by decide) q) b []
  | tok :: ts, b, hspaced, h => by
    have hts := isSpaced_of_cons hspaced
    rw [gap_eq, spell_cons, List.append_assoc]
    by_cases hw : tok.isWord = true
    · -- the word is read to its end, since the rest does not start inside a word
      have hplain := Token.plain_of_isWord hspaced hw
      have hne := Token.text_ne_nil hspaced
      rw [views_run_of_stopsAt (stopsAt_of_plain (by decide) hne hplain _),
        views_word_seq hq hne hplain (stopsAt_of_isWord hspaced hw htail.stopsAt_word)]
      rw [gapWord_of_isWord hw] at h
      exact htest ts _ hts (startsMark_of_isWord hspaced hw) h
    · cases tok with
      | mark c =>
        have hreject : isGap c = true → (word ++ q).Rejects c := fun hc =>
          rejects_of_rejectsAll (rejectsAll_seq (by decide) q) (mem_of_isGap hc)
        rw [Token.text, List.cons_append, List.nil_append, views_run_cons hreject, ← gap_eq]
        rw [gapWord] at h
        split
        · rename_i hc
          rw [hc, Bool.true_and] at h
          exact views_gapWord htail hq htest hts h
        · rw [isSpaced, Bool.and_eq_true, Bool.not_eq_true'] at hspaced
          exact views_seq_of_eq_nil (word_rejects hspaced.1 _ rfl)
      | _ => exact absurd rfl hw

theorem views_gap1Word (htail : EndsLine tail) (hq : q.rejectsAll nameChars = true)
    (htest : ∀ ts b, isSpaced ts = true → startsMark ts = true → test ts = false →
      q.views ⟨b, spell ts ++ tail, []⟩ = []) {ts : List Token} (hspaced : isSpaced ts = true)
    (hstart : startsMark ts = true) (h : twoWords test ts = false) (b : Option Char) :
    (gap1 ++ (word ++ q)).views ⟨b, spell ts ++ tail, []⟩ = [] := by
  rw [gap1_eq]
  match ts with
  | [] =>
    rw [spell_nil, List.nil_append]
    cases htext : tail with
    | nil => rfl
    | cons c t =>
      rw [views_run1_cons]
      split
      · rename_i hc
        rw [htext] at htail
        -- a line feed is no gap, so the first character is still on this line
        have hnewline : c ≠ '\n' := by
          rintro rfl
          exact absurd hc (by decide)
        rw [← gap_eq]
        exact (htail.of_cons hnewline).views_gap_seq (rejectsAll_seq (by decide) q) _ _
      · rfl
  | .mark c :: ts =>
    rw [spell_cons, Token.text, List.cons_append, List.nil_append, List.cons_append, views_run1_cons,
      ← gap_eq]
    rw [twoWords] at h
    split
    · rename_i hc
      rw [hc, Bool.true_and] at h
      exact views_gapWord htail hq htest (isSpaced_of_cons hspaced) h
    · rfl

/-- Where the tokens behind a word do not lead to a second one that passes the test, no two words are
read. -/
theorem views_twoWords (htail : EndsLine tail) (hq : q.rejectsAll nameChars = true)
    (htest : ∀ ts b, isSpaced ts = true → startsMark ts = true → test ts = false →
      q.views ⟨b, spell ts ++ tail, []⟩ = []) {ts : List Token} (hspaced : isSpaced ts = true)
    (hstart : startsMark ts = true) (h : twoWords test ts = false) {w : Text} (hne : w ≠ [])
    (hw : ∀ c ∈ w, c ∈ nameChars) (b : Option Char) :
    (word ++ (gap1 ++ (word ++ q))).views ⟨b, w ++ (spell ts ++ tail), []⟩ = [] := by
  have hgap : (gap1 ++ (word ++ q)).rejectsAll nameChars = true := rejectsAll_seq (by decide) _
  rw [views_word_seq hgap hne hw (stopsAt_spell hspaced hstart htail.stopsAt_word)]
  exact views_gap1Word htail hq htest hspaced hstart h _

/-- Whether a row of tokens does not begin with a word behind which the test passes. -/
def noWordWith (test : List Token → Bool) : List Token → Bool
  | .mark _ :: _ => true
  | _ :: ts => !test ts
  | [] => true

/-- A pattern that begins with two words is skipped where no word has a second one behind it. -/
theorem skips_twoWords (htail : EndsLine tail) (hq : q.rejectsAll nameChars = true)
    (htest : ∀ ts b, isSpaced ts = true → startsMark ts = true → test ts = false →
      q.views ⟨b, spell ts ++ tail, []⟩ = []) {ts : List Token} (hspaced : isSpaced ts = true)
    (h : everywhere (noWordWith (twoWords test)) ts = true) (b : Option Char) :
    (word ++ (gap1 ++ (word ++ q))).Skips b (spell ts) tail := by
  apply skips_spell (fun _ => True) _ trivial hspaced h
  intro tok ts b _ hspaced htok
  refine ⟨?_, trivial⟩
  by_cases hw : tok.isWord = true
  · have hsecond : twoWords test ts = false := by
      cases tok with
      | mark c => exact absurd hw Bool.false_ne_true
      | _ => simpa [noWordWith] using htok
    exact skips_word (fun w b hne hw' => views_twoWords htail hq htest (isSpaced_of_cons hspaced)
      (startsMark_of_isWord hspaced hw) hsecond hne hw' b) (Token.plain_of_isWord hspaced hw)
  · cases tok with
    | mark c =>
      rw [isSpaced, Bool.and_eq_true, Bool.not_eq_true'] at hspaced
      exact ⟨views_seq_of_eq_nil (word_rejects hspaced.1 _ rfl), trivial⟩
    | _ => exact absurd rfl hw

end TwoWords

/-! ## Declared new objects -/

/-- What follows the equals sign of a declared new object. -/
def newObject : Pattern :=
  blanks ++ (text "new" ++ (blanks1 ++ (group 3 word ++ (text "(" ++ (group 4 someOfLine ++ text ");")))))

theorem views_declaredObjectRule (v : View) : declaredObjectRule.pattern.views v =
    (group 1 word ++ (gap1 ++ (group 2 word ++ (blanks ++ (text "=" ++ newObject))))).views v := by
  simp only [declaredObjectRule, views_assoc, newObject]

/-- Whether blanks lead to an equals sign that stands alone. -/
def equalsSign : List Token → Bool
  | [] => false
  | .mark c :: ts => if isBlank c then equalsSign ts else c == '=' && !ts.head?.any fun
      | .mark d => d == '='
      | _ => false
  | _ => false

theorem rejectsAll_equals (q : Pattern) : (text "=" ++ q).rejectsAll " \t\n" = true :=
  rejectsAll_seq (by decide) q

/-- Blanks do not lead from the end of a line to an equals sign. -/
theorem views_equals_rows (q : Pattern) (g : Gap) (rs : List Row) (b : Option Char) :
    (blanks ++ (text "=" ++ q)).views ⟨b, g.text ++ rowsTail k rs, []⟩ = [] := by
  apply views_blanks_rows (rejectsAll_equals q)
  intro l t b _
  obtain ⟨c, s, hform, hc⟩ := l.exists_form k
  have hall : (('}' :: nameChars).all fun c => !isBlank c && c != '=') = true := by decide
  have hc := List.all_eq_true.mp hall c hc
  rw [Bool.and_eq_true, Bool.not_eq_true', bne_iff_ne] at hc
  rw [hform, List.cons_append, blanks, views_run_of_stopsAt (by simp [hc.1])]
  exact text_rejects hc.2 [] q _ rfl

/-- An equals sign is not the start of a new object's text. -/
theorem newObject_rejects : newObject.bare.Rejects '=' := by
  rintro ⟨b, t, g⟩ hv
  cases t with
  | nil => exact absurd hv (by simp)
  | cons c t =>
    rw [List.head?_cons, Option.some.injEq] at hv
    subst hv
    have hnew : '=' ≠ 'n' := by decide
    exact (views_run_of_stopsAt rfl _ _ _).trans (text_rejects hnew ['e', 'w'] _ _ rfl)

theorem views_equalsSign (g : Gap) (rs : List Row) :
    ∀ {ts : List Token} {b : Option Char}, isSpaced ts = true → equalsSign ts = false →
      (blanks ++ (text "=" ++ newObject.bare)).views ⟨b, spell ts ++ (g.text ++ rowsTail k rs), []⟩ = []
  | [], b, _, _ => views_equals_rows _ g rs b
  | tok :: ts, b, hspaced, h => by
    have hequals : ∀ c t b, isBlank c = false → c ≠ '=' →
        (blanks ++ (text "=" ++ newObject.bare)).views ⟨b, c :: t, []⟩ = [] := by
      intro c t b hblank hc
      rw [blanks, views_run_of_stopsAt (by simp [hblank])]
      exact text_rejects hc [] _ _ rfl
    rw [spell_cons, List.append_assoc]
    by_cases hw : tok.isWord = true
    · obtain ⟨c, w, hc⟩ := List.exists_cons_of_ne_nil (Token.text_ne_nil hspaced)
      have hmem := Token.plain_of_isWord hspaced hw c (by rw [hc]; simp)
      have hall : (nameChars.all fun c => !isBlank c && c != '=') = true := by decide
      have hc' := List.all_eq_true.mp hall c hmem
      rw [Bool.and_eq_true, Bool.not_eq_true', bne_iff_ne] at hc'
      rw [hc, List.cons_append]
      exact hequals c _ b hc'.1 hc'.2
    · cases tok with
      | mark c =>
        have hreject : isBlank c = true → (text "=" ++ newObject.bare).Rejects c := by
          intro hc
          apply text_rejects
          rintro rfl
          exact absurd hc (by decide)
        rw [equalsSign] at h
        rw [Token.text, List.cons_append, List.nil_append]
        by_cases hblank : isBlank c = true
        · rw [if_pos hblank] at h
          rw [blanks, views_run_cons hreject, if_pos hblank, ← blanks]
          exact views_equalsSign g rs (isSpaced_of_cons hspaced) h
        · rw [if_neg hblank] at h
          rw [Bool.not_eq_true] at hblank
          by_cases hc : c = '='
          · subst hc
            -- a second equals sign follows
            cases ts with
            | nil => exact absurd h (by simp)
            | cons tok ts =>
              cases tok with
              | mark d =>
                have hd : d = '=' := by simpa using h
                subst hd
                rw [blanks, views_run_of_stopsAt rfl]
                exact (views_text_seq ['='] _ _ _ _).trans (newObject_rejects _ rfl)
              | _ => exact absurd h (by simp)
          · exact hequals c _ b hblank hc
      | _ => exact absurd rfl hw

/-- The characters of a list of arguments. -/
def argumentChars : Text := nameChars ++ ", "

theorem mem_argumentChars : ∀ (arguments : List Name), ∀ c ∈ argumentText arguments, c ∈ argumentChars
  | [], _, h => absurd h List.not_mem_nil
  | [n], c, h => List.mem_append_left _ (n.plain c h)
  | n :: n' :: ns, c, h => by
    have ih := mem_argumentChars (n' :: ns) c
    have hseparator : ∀ c ∈ ", ".toList, c ∈ argumentChars := by decide
    have htext : argumentText (n :: n' :: ns) = n.text ++ ", ".toList ++ argumentText (n' :: ns) := rfl
    rw [htext, List.mem_append, List.mem_append] at h
    rcases h with (h | h) | h
    · exact List.mem_append_left _ (n.plain c h)
    · exact hseparator c h
    · exact ih h

theorem first_gap1 {t : Text} {b : Option Char} {g : Notes} (ht : stopsAt isGap t = true) :
    gap1.First ⟨b, ' ' :: t, g⟩ ⟨some ' ', t, g⟩ := by
  rw [gap1_eq]
  exact First.run1 (s := [' ']) (by decide) (by decide) ht b g

theorem first_declaredObject (type name made : Name) (arguments : List Name) (b : Option Char)
    (tail : Text) :
    (group 1 word ++ (gap1 ++ (group 2 word ++ (blanks ++ (text "=" ++ newObject))))).First
      ⟨b, type.text ++ ' ' :: (name.text ++ ' ' :: '=' :: ' ' :: 'n' :: 'e' :: 'w' :: ' ' ::
        (made.text ++ '(' :: (argumentText arguments ++ ')' :: ';' :: tail))), []⟩
      ⟨some ';', tail,
        [(4, argumentText arguments), (3, made.text), (2, name.text), (1, type.text)]⟩ := by
  have hgap : stopsAt isGap (name.text ++ ' ' :: '=' :: ' ' :: 'n' :: 'e' :: 'w' :: ' ' ::
      (made.text ++ '(' :: (argumentText arguments ++ ')' :: ';' :: tail))) = true :=
    stopsAt_of_plain (by decide) name.nonempty name.plain _
  have hline : (argumentChars.all fun d => !"\n".toList.elem d) = true := by decide
  have hreject : (text ");").rejectsAll argumentChars = true := by decide
  refine .seq (.group (type.first_word rfl) 1) (.seq (first_gap1 hgap) ?_)
  refine .seq (.group (name.first_word rfl) 2) (.seq (first_space rfl) (.seq (First.text ['='] _ _ _) ?_))
  refine .seq (first_space rfl) (.seq (First.text ['n', 'e', 'w'] _ _ _) ?_)
  refine .seq (first_space1 (made.stopsAt_blank _)) (.seq (.group (made.first_word rfl) 3) ?_)
  refine .seq (First.text ['('] _ _ _) ?_
  exact First.lazy (fun d hd => List.all_eq_true.mp hline d (mem_argumentChars arguments d hd))
    (fun d hd => rejects_of_rejectsAll hreject (mem_argumentChars arguments d hd))
    (First.text [')', ';'] _ _ _)

theorem everywhere_marks (test : List Token → Bool) (m : Text) (ts : List Token) :
    everywhere (noWordWith test) (marks m ++ ts) = everywhere (noWordWith test) ts := by
  induction m with
  | nil => rfl
  | cons c m ih =>
    rw [marks, List.map_cons, List.cons_append, everywhere, ← marks, ih]
    rfl

theorem everywhere_condition (c : Condition) (d : Char) (ts : List Token) :
    everywhere (noWordWith (twoWords equalsSign)) (Line.conditionTokens c (.mark d :: ts)) =
      (noWordWith (twoWords equalsSign) (.name c.right :: .mark d :: ts) &&
        everywhere (noWordWith (twoWords equalsSign)) ts) := by
  have hfirst : twoWords equalsSign (.mark ' ' :: (marks c.comparison.text ++ .mark ' ' ::
      .name c.right :: .mark d :: ts)) = false := by
    cases c.comparison <;> rfl
  simp [Line.conditionTokens, everywhere, noWordWith, everywhere_marks, hfirst]

theorem everywhere_declaredObject (h : l.turn ≠ 9) :
    everywhere (noWordWith (twoWords equalsSign)) (l.tokens 8) = true := by
  have hblank : isBlank ' ' = true ∧ isBlank '<' = false ∧ isBlank '>' = false ∧ isBlank '=' = false ∧
      isBlank '!' = false ∧ isBlank ':' = false := by decide
  have hword : ∀ (c : Condition) (ts : List Token),
      gapWord equalsSign (Line.conditionTokens c ts) = false := by
    intro c ts
    simp only [Line.conditionTokens, gapWord]
    cases c.comparison <;> simp [Comparison.text, marks, equalsSign, hblank]
  cases l with
  | simple s =>
    cases s <;> simp_all [Line.tokens, Line.turn, Line.javaTokens, Line.recastTokens, everywhere,
      noWordWith, twoWords, gapWord, equalsSign, isGap]
  | opening o =>
    cases o <;> simp [Line.tokens, Line.turn, Line.recastTokens, everywhere, noWordWith, twoWords,
      gapWord, equalsSign, isGap, everywhere_condition, hword, hblank]
  | _ =>
    simp [Line.tokens, Line.turn, Line.javaTokens, Line.recastTokens, everywhere, noWordWith, twoWords,
      gapWord, equalsSign, isGap, everywhere_condition, everywhere_marks, hword]

/-- The rule for declared new objects takes the lines that declare one. -/
theorem takesLine_declaredObjectRule (l : Line) :
    TakesLine declaredObjectRule.pattern declaredObjectRule.template.fill 8 9 l := by
  by_cases h : l.turn = 9
  · have hl := l.eq_of_turn
    rw [h] at hl
    obtain ⟨type, name, made, arguments, rfl⟩ := hl
    have hform : ∀ tail, (Line.simple (.construct type name made arguments)).form 8 ++ tail =
        type.text ++ ' ' :: (name.text ++ ' ' :: '=' :: ' ' :: 'n' :: 'e' :: 'w' :: ' ' ::
          (made.text ++ '(' :: (argumentText arguments ++ ')' :: ';' :: tail))) := by
      intro tail
      rw [← Line.spell_tokens]
      simp [Line.tokens, Line.turn, Line.javaTokens, Line.spell_argumentTokens, Token.text]
    apply takesLine_of_first (n := [(4, argumentText arguments), (3, made.text), (2, name.text),
      (1, type.text)])
    · intro b tail _ _
      refine ⟨some ';', ?_⟩
      rw [hform, First, views_declaredObjectRule]
      exact first_declaredObject type name made arguments b tail
    · intro m offset hm
      have hname : m.group 2 = name.text := hm.group 1
      have hmade : m.group 3 = made.text := hm.group 2
      have harguments : m.group 4 = argumentText arguments := hm.group 3
      rw [← Line.spell_tokens]
      simp [Line.tokens, Line.turn, Line.recastTokens, Line.spell_argumentTokens, Token.text,
        declaredObjectRule, Template.fill, hname, hmade, harguments]
  · apply takesLine_of_skips (Line.form_succ_of_ne h)
    intro g rs b _
    rw [← l.spell_tokens]
    have hequals : ∀ ts b, isSpaced ts = true → startsMark ts = true → equalsSign ts = false →
        (blanks ++ (text "=" ++ newObject.bare)).views
          ⟨b, spell ts ++ (g.text ++ rowsTail 8 rs), []⟩ = [] :=
      fun ts b hspaced _ htest => views_equalsSign g rs hspaced htest
    -- a match would have to start with two words and an equals sign
    apply skips_congr views_declaredObjectRule
    apply skips_of_bare
    exact skips_twoWords (endsLine_rows g 8 rs) (by decide) hequals (l.isSpaced_tokens 8)
      (everywhere_declaredObject h) b

/-! ## Where a typed declaration can begin -/

/-- The value of a declaration. -/
def declaredValue : Pattern :=
  (stringLiteral ||| noneOf ";=\n\"") ++ many (stringLiteral ||| noneOf ";\n\"")

theorem views_declarationPattern (v : View) : declarationPattern.views v =
    (group 1 (lineStart ||| oneOf ";\x7b\x7d") ++ (group 2 gap ++ (group 3 word ++ (gap1 ++ (group 4 word
      ++ (gap ++ (text "=" ++ (gap ++ group 5 declaredValue)))))))).views v := by
  simp only [declarationPattern, views_assoc, declaredValue]

/-- Whether spaces and tabs lead to an equals sign. -/
def assigns : List Token → Bool
  | .mark c :: ts => if isGap c then assigns ts else c == '='
  | _ => false

/-- Type, name and equals sign of a declaration. -/
def declared (q : Pattern) : Pattern := gap ++ (word ++ (gap1 ++ (word ++ (gap ++ (text "=" ++ q)))))

theorem views_assigns (htail : EndsLine tail) (q : Pattern) : ∀ {ts : List Token} {b : Option Char},
    isSpaced ts = true → assigns ts = false →
      (gap ++ (text "=" ++ q)).views ⟨b, spell ts ++ tail, []⟩ = []
  | [], b, _, _ => htail.views_gap_seq (rejectsAll_equals q) b []
  | tok :: ts, b, hspaced, h => by
    rw [spell_cons, List.append_assoc, gap_eq]
    by_cases hw : tok.isWord = true
    · -- a word ends the gap, and no word starts with an equals sign
      obtain ⟨c, w, hc⟩ := List.exists_cons_of_ne_nil (Token.text_ne_nil hspaced)
      have hmem := Token.plain_of_isWord hspaced hw c (by rw [hc]; simp)
      have hall : (nameChars.all fun c => !isGap c && c != '=') = true := by decide
      have hc' := List.all_eq_true.mp hall c hmem
      rw [Bool.and_eq_true, Bool.not_eq_true', bne_iff_ne] at hc'
      rw [hc, List.cons_append, views_run_of_stopsAt (by simp [hc'.1])]
      exact text_rejects hc'.2 [] q _ rfl
    · cases tok with
      | mark c =>
        have hreject : isGap c = true → (text "=" ++ q).Rejects c := fun hc =>
          rejects_of_rejectsAll (rejectsAll_equals q) (mem_of_isGap hc)
        rw [assigns] at h
        rw [Token.text, List.cons_append, List.nil_append, views_run_cons hreject, ← gap_eq]
        split
        · rename_i hc
          rw [if_pos hc] at h
          exact views_assigns htail q (isSpaced_of_cons hspaced) h
        · rename_i hc
          rw [if_neg hc, beq_eq_false_iff_ne] at h
          exact text_rejects h [] q _ rfl
      | _ => exact absurd rfl hw

theorem views_declared (htail : EndsLine tail) (q : Pattern) {ts : List Token} {b : Option Char}
    (hspaced : isSpaced ts = true) (h : gapWord (twoWords assigns) ts = false) :
    (declared q).views ⟨b, spell ts ++ tail, []⟩ = [] := by
  have hname : (gap ++ (text "=" ++ q)).rejectsAll nameChars = true :=
    rejectsAll_seq_right (by decide) (rejectsAll_seq (by decide) q)
  have hsecond : ∀ ts b, isSpaced ts = true → startsMark ts = true → twoWords assigns ts = false →
      (gap1 ++ (word ++ (gap ++ (text "=" ++ q)))).views ⟨b, spell ts ++ tail, []⟩ = [] :=
    fun ts b hspaced hstart h => views_gap1Word htail hname
      (fun ts b hspaced _ h => views_assigns htail q hspaced h) hspaced hstart h b
  exact views_gapWord htail (rejectsAll_seq (by decide) _) hsecond hspaced h

/-- A declaration begins at the start of a line or behind one of three marks. -/
theorem views_declaration_eq_nil {q : Pattern} {b : Option Char} {t : Text}
    (hstart : startsLine b = true → (declared q).views ⟨b, t, []⟩ = [])
    (hmark : ∀ c t', t = c :: t' → c ∈ ";\x7b\x7d".toList → (declared q).views ⟨some c, t', []⟩ = []) :
    ((lineStart ||| oneOf ";\x7b\x7d") ++ declared q).views ⟨b, t, []⟩ = [] := by
  have halt : (lineStart ||| oneOf ";\x7b\x7d").views ⟨b, t, []⟩ =
      lineStart.views ⟨b, t, []⟩ ++ (oneOf ";\x7b\x7d").views ⟨b, t, []⟩ := rfl
  rw [views_seq, halt, List.flatMap_append, List.append_eq_nil_iff]
  constructor
  · rw [views]
    split
    · rename_i hb
      rw [List.flatMap_singleton]
      exact hstart hb
    · rfl
  · cases t with
    | nil => rfl
    | cons c t =>
      rw [oneOf, views_one_cons]
      split
      · rename_i hc
        rw [List.flatMap_singleton]
        exact hmark c t rfl (by simpa using hc)
      · rfl

/-- Whether no declaration begins behind the first of some tokens. -/
def noDeclaration : List Token → Bool
  | .mark c :: ts => c != '\n' && (!";\x7b\x7d".toList.elem c || !gapWord (twoWords assigns) ts)
  | _ => true

theorem startsLine_lastOf {w : Text} (hne : w ≠ []) (h : '\n' ∉ w) (b : Option Char) :
    startsLine (lastOf b w) = false := by
  obtain ⟨c, hc, hlast⟩ := lastOf_mem b hne
  rw [hlast]
  have hnewline : c ≠ '\n' := fun h' => h (h' ▸ hc)
  simpa [startsLine] using hnewline

/-- Inside a word no declaration begins. -/
theorem skips_declaration_word {q : Pattern} {t : Text} : ∀ {w : Text} {b : Option Char},
    (∀ c ∈ w, c ∈ nameChars) → (startsLine b = true → (declared q).views ⟨b, w ++ t, []⟩ = []) →
    ((lineStart ||| oneOf ";\x7b\x7d") ++ declared q).Skips b w t
  | [], _, _, _ => trivial
  | c :: w, b, hw, hstart => by
    have hc : c ∈ nameChars := hw c List.mem_cons_self
    have hnewline : '\n' ∉ [c] := by
      rw [List.mem_singleton]
      rintro rfl
      exact absurd hc (by decide)
    have hlast : startsLine (some c) = false := startsLine_lastOf (List.cons_ne_nil c []) hnewline none
    refine ⟨views_declaration_eq_nil hstart ?_, skips_declaration_word
      (fun d hd => hw d (List.mem_cons_of_mem c hd)) (by rw [hlast]; simp)⟩
    intro d t' hd hmark
    rw [List.cons.injEq] at hd
    rw [← hd.1] at hmark
    have hall : (nameChars.all fun c => !";\x7b\x7d".toList.elem c) = true := by decide
    exact absurd hmark (by simpa using List.all_eq_true.mp hall c hc)

/-- No declaration begins among tokens that have none behind a mark, and none at the start of the line
if they stand there. -/
theorem skips_declaration (htail : EndsLine tail) (q : Pattern) :
    ∀ {ts : List Token} {b : Option Char}, isSpaced ts = true →
      (startsLine b = true → gapWord (twoWords assigns) ts = false) →
      everywhere noDeclaration ts = true →
      ((lineStart ||| oneOf ";\x7b\x7d") ++ declared q).Skips b (spell ts) tail
  | [], _, _, _, _ => trivial
  | tok :: ts, b, hspaced, hstart, hall => by
    rw [everywhere, Bool.and_eq_true] at hall
    have hts := isSpaced_of_cons hspaced
    have hfirst : startsLine b = true →
        (declared q).views ⟨b, tok.text ++ (spell ts ++ tail), []⟩ = [] := by
      intro hb
      have h := views_declared htail q (b := b) hspaced (hstart hb)
      rwa [spell_cons, List.append_assoc] at h
    -- only a line feed lets a line start behind the token, and it has none
    have hnewline : '\n' ∉ tok.text := by
      by_cases hw : tok.isWord = true
      · exact fun h => absurd (Token.plain_of_isWord hspaced hw _ h) (by decide)
      · cases tok with
        | mark c =>
          have hc : c ≠ '\n' := by
            have h := hall.1
            rw [noDeclaration, Bool.and_eq_true] at h
            simpa using h.1
          simpa [Token.text] using hc.symm
        | _ => exact absurd rfl hw
    have hlast := startsLine_lastOf (Token.text_ne_nil hspaced) hnewline b
    -- behind the token a declaration could only begin at a mark
    refine skips_append ?_ (skips_declaration htail q hts (by rw [hlast]; simp) hall.2)
    by_cases hw : tok.isWord = true
    · exact skips_declaration_word (Token.plain_of_isWord hspaced hw) hfirst
    · cases tok with
      | mark c =>
        refine ⟨views_declaration_eq_nil hfirst ?_, trivial⟩
        intro d t' hd hmark
        obtain ⟨rfl, rfl⟩ := List.cons.inj hd
        apply views_declared htail q hts
        have h := hall.1
        rw [noDeclaration, Bool.and_eq_true, Bool.or_eq_true, Bool.not_eq_true', Bool.not_eq_true'] at h
        rcases h.2 with h | h
        · exact absurd hmark (by simpa using h)
        · exact h
      | _ => exact absurd rfl hw

/-! ## Lines without a typed declaration -/

theorem gapWord_gap (test : List Token → Bool) {m : Text} (hm : ∀ c ∈ m, isGap c = true)
    (ts : List Token) : gapWord test (marks m ++ ts) = gapWord test ts := by
  induction m with
  | nil => rfl
  | cons c m ih =>
    rw [marks, List.map_cons, List.cons_append, gapWord, hm c List.mem_cons_self, ← marks,
      ih fun d hd => hm d (List.mem_cons_of_mem c hd)]
    rfl

/-- Marks that neither end a line nor a statement. -/
theorem everywhere_noDeclaration_marks {m : Text} (hm : ∀ c ∈ m, c ∉ "\n;\x7b\x7d".toList)
    (ts : List Token) : everywhere noDeclaration (marks m ++ ts) = everywhere noDeclaration ts := by
  induction m with
  | nil => rfl
  | cons c m ih =>
    have hc := hm c List.mem_cons_self
    have hfirst : noDeclaration (.mark c :: (marks m ++ ts)) = true := by
      simp_all [noDeclaration]
    rw [marks, List.map_cons, List.cons_append, ← marks, everywhere, hfirst,
      ih fun d hd => hm d (List.mem_cons_of_mem c hd)]
    rfl

theorem everywhere_noDeclaration_gap (g : Gap) (ts : List Token) :
    everywhere noDeclaration (marks g.text ++ ts) = everywhere noDeclaration ts := by
  apply everywhere_noDeclaration_marks
  intro c hc
  rcases eq_of_isGap (g.isGap c hc) with rfl | rfl <;> decide

theorem everywhere_noDeclaration_condition (c : Condition) (ts : List Token) :
    everywhere noDeclaration (Line.conditionTokens c ts) = everywhere noDeclaration ts := by
  have hsign : ∀ d ∈ c.comparison.text, d ∉ "\n;\x7b\x7d".toList := by
    cases c.comparison <;> decide
  simp [Line.conditionTokens, everywhere, noDeclaration, everywhere_noDeclaration_marks hsign]

theorem gapWord_condition (c : Condition) (ts : List Token) :
    gapWord (twoWords assigns) (Line.conditionTokens c ts) = false := by
  simp only [Line.conditionTokens, gapWord, twoWords]
  cases c.comparison <;> rfl

theorem gapWord_tokens (h : l.turn ≠ 2) (h' : l.turn ≠ 9) :
    gapWord (twoWords assigns) (l.tokens 1) = false := by
  cases l with
  | simple s =>
    cases s <;> simp_all [Line.tokens, Line.turn, Line.javaTokens, Line.recastTokens, gapWord, twoWords,
      assigns, isGap]
  | opening o =>
    cases o <;> simp [Line.tokens, Line.turn, Line.javaTokens, gapWord, twoWords, isGap]
  | _ => simp [Line.tokens, Line.turn, Line.javaTokens, Line.recastTokens, gapWord, twoWords, isGap]

theorem everywhere_noDeclaration_tokens (h : l.turn ≠ 2) (h' : l.turn ≠ 9) :
    everywhere noDeclaration (l.tokens 1) = true := by
  cases l with
  | simple s =>
    cases s <;> simp_all [Line.tokens, Line.turn, Line.javaTokens, Line.recastTokens, everywhere,
      noDeclaration, gapWord]
  | opening o =>
    cases o <;> simp [Line.tokens, Line.turn, Line.javaTokens, everywhere, noDeclaration, gapWord,
      twoWords, isGap, everywhere_noDeclaration_condition, gapWord_condition]
  | joint gap c =>
    have hgap := gapWord_gap (twoWords assigns) gap.isGap
    simp [Line.tokens, Line.turn, Line.javaTokens, everywhere, noDeclaration, gapWord, twoWords, isGap,
      everywhere_noDeclaration_condition, everywhere_noDeclaration_gap, hgap]
  | _ =>
    simp [Line.tokens, Line.turn, Line.javaTokens, Line.recastTokens, everywhere, noDeclaration, gapWord,
      twoWords, isGap, everywhere_noDeclaration_condition]

/-! ## Typed declarations -/

theorem first_one {accepts : Char → Bool} {c : Char} (hc : accepts c = true) (b : Option Char) (t : Text)
    (g : Notes) : (one accepts).First ⟨b, c :: t, g⟩ ⟨some c, t, g⟩ := by
  rw [First, views_one_cons, if_pos hc]
  rfl

theorem stringLiteral_rejects {c : Char} (hc : c ≠ '"') : stringLiteral.Rejects c := by
  intro v hv
  rw [show stringLiteral.views v = _ from views_assoc _ _ _ _]
  exact text_rejects hc [] _ v hv

theorem first_declaredValue {c : Char} {rest : Text} (hc : c ∈ nameChars)
    (hrest : ∀ d ∈ rest, d ∉ ";\n\"".toList) (b : Option Char) (tail : Text) (g : Notes) :
    declaredValue.First ⟨b, c :: (rest ++ ';' :: tail), g⟩ ⟨lastOf (some c) rest, ';' :: tail, g⟩ := by
  have hall : (nameChars.all fun c => !";=\n\"".toList.elem c) = true := by decide
  have hquote : ∀ {d : Char}, d ∉ ";\n\"".toList → d ≠ '"' := by
    rintro d hd rfl
    exact hd (by decide)
  have hc' : c ≠ '"' := by
    rintro rfl
    exact absurd hc (by decide)
  refine .seq (.altRight (stringLiteral_rejects hc' _ rfl)
    (first_one (List.all_eq_true.mp hall c hc) b _ g)) (First.many ?_ ?_)
  · intro d hd b t
    refine .altRight (stringLiteral_rejects (hquote (hrest d hd)) _ rfl) (first_one ?_ b t g)
    simpa using hrest d hd
  · have hsemicolon : (stringLiteral ||| noneOf ";\n\"").Rejects ';' :=
      rejects_of_canStart (by decide) (by decide)
    exact hsemicolon _ rfl

theorem first_gap (lead : Gap) {t : Text} {b : Option Char} {g : Notes} (ht : stopsAt isGap t = true) :
    gap.First ⟨b, lead.text ++ t, g⟩ ⟨lastOf b lead.text, t, g⟩ := by
  rw [gap_eq]
  exact First.run lead.isGap ht b g

theorem first_declaration {b : Option Char} (hb : startsLine b = true) (lead : Gap) (type name : Name)
    {c : Char} {rest : Text} (hc : c ∈ nameChars) (hrest : ∀ d ∈ rest, d ∉ ";\n\"".toList) (tail : Text) :
    declarationPattern.First
      ⟨b, lead.text ++ (type.text ++ ' ' :: (name.text ++ ' ' :: '=' :: ' ' ::
        (c :: rest ++ ';' :: tail))), []⟩
      ⟨lastOf (some c) rest, ';' :: tail,
        [(5, c :: rest), (4, name.text), (3, type.text), (2, lead.text), (1, [])]⟩ := by
  have hgap : ∀ (n : Name) (t : Text), stopsAt isGap (n.text ++ t) = true :=
    fun n t => stopsAt_of_plain (by decide) n.nonempty n.plain t
  have hvalue : stopsAt isGap (c :: rest ++ ';' :: tail) = true :=
    stopsAt_of_plain (w := [c]) (by decide) (by simp) (by simpa using hc) (rest ++ ';' :: tail)
  have hstart : (lineStart ||| oneOf ";\x7b\x7d").First
      ⟨b, [] ++ (lead.text ++ (type.text ++ ' ' :: (name.text ++ ' ' :: '=' :: ' ' ::
        (c :: rest ++ ';' :: tail)))), []⟩
      ⟨b, lead.text ++ (type.text ++ ' ' :: (name.text ++ ' ' :: '=' :: ' ' ::
        (c :: rest ++ ';' :: tail))), []⟩ := by
    apply First.altLeft
    have hline : (View.mk b (lead.text ++ (type.text ++ ' ' :: (name.text ++ ' ' :: '=' :: ' ' ::
        (c :: rest ++ ';' :: tail)))) []).isLineStart = true := hb
    rw [First, List.nil_append, views, if_pos hline]
    rfl
  have hspace : ∀ {t : Text} {b : Option Char} {g : Notes}, stopsAt isGap t = true →
      gap.First ⟨b, ' ' :: t, g⟩ ⟨some ' ', t, g⟩ :=
    first_gap ⟨[' '], by decide⟩
  -- part by part: the start of the line, the gap, the type, the name, the equals sign and the value
  rw [First, views_declarationPattern]
  refine First.seq (.group hstart 1) (.seq (.group (first_gap lead (hgap type _)) 2) ?_)
  refine .seq (.group (type.first_word rfl) 3) (.seq (first_gap1 (hgap name _)) ?_)
  refine .seq (.group (name.first_word rfl) 4) (.seq (hspace rfl) (.seq (First.text ['='] _ _ _) ?_))
  refine .seq (hspace hvalue) ?_
  exact .group (first_declaredValue hc hrest _ tail _) 5

theorem replaceFrom_declaration_skips (htail : EndsLine tail) {ts : List Token} {b : Option Char}
    (hspaced : isSpaced ts = true) (hstart : startsLine b = true → gapWord (twoWords assigns) ts = false)
    (hall : everywhere noDeclaration ts = true) (f : Match → Text) (offset : Nat) :
    declarationPattern.replaceFrom f b offset 0 (spell ts ++ tail) =
      spell ts ++ declarationPattern.replaceFrom f (lastOf b (spell ts)) (offset + (spell ts).size) 0
        tail := by
  apply replaceFrom_skips
  apply skips_congr views_declarationPattern
  apply skips_of_bare
  exact skips_declaration htail _ hspaced hstart hall

/-- No declaration begins in the spaces and tabs at the end of a line. -/
theorem replaceFrom_declaration_gap (g : Gap) (rs : List Row) (b : Option Char) (f : Match → Text)
    (offset : Nat) : declarationPattern.replaceFrom f b offset 0 (g.text ++ rowsTail k rs) =
      g.text ++ declarationPattern.replaceFrom f (lastOf b g.text) (offset + g.text.size) 0
        (rowsTail k rs) := by
  have hend : EndsLine (rowsTail k rs) :=
    ⟨[], _, rfl, fun _ h => absurd h List.not_mem_nil, stopsAt_rowsTail k rs⟩
  have hgap : ∀ c ∈ g.text, isWordChar c = false := fun c hc => isWordChar_of_isGap (g.isGap c hc)
  have hspaced : isSpaced (marks g.text) = true := by
    have h := Line.isSpaced_marks_append hgap []
    rwa [List.append_nil] at h
  have hstart : gapWord (twoWords assigns) (marks g.text) = false := by
    have h := gapWord_gap (twoWords assigns) g.isGap []
    rwa [List.append_nil] at h
  have hall : everywhere noDeclaration (marks g.text) = true := by
    have h := everywhere_noDeclaration_gap g []
    rwa [List.append_nil] at h
  have h := replaceFrom_declaration_skips hend hspaced (b := b) (fun _ => hstart) hall f offset
  rwa [spell_marks] at h

/-- A declaration becomes what is made of it, up to its semicolon. -/
theorem replaceFrom_declaration_first {b : Option Char} (hb : startsLine b = true) (lead : Gap)
    (type name : Name) {c : Char} {rest s : Text} (hc : c ∈ nameChars)
    (hrest : ∀ d ∈ rest, d ∉ ";\n\"".toList)
    (hs : s = lead.text ++ (type.text ++ ' ' :: (name.text ++ ' ' :: '=' :: ' ' :: c :: rest)))
    (trail : Gap) (rs : List Row) (offset : Nat) {out : Text}
    (hout : ∀ m : Match, m.Is offset s
        [(5, c :: rest), (4, name.text), (3, type.text), (2, lead.text), (1, [])] →
      recastDeclaration m = out) :
    declarationPattern.replaceFrom recastDeclaration b offset 0
        (s ++ ';' :: trail.text ++ rowsTail k rs) =
      out ++ ';' :: trail.text ++ declarationPattern.replaceFrom recastDeclaration
        (lastOf b (s ++ ';' :: trail.text)) (offset + (s ++ ';' :: trail.text).size) 0
        (rowsTail k rs) := by
  have hfirst := first_declaration hb lead type name hc hrest (trail.text ++ rowsTail k rs)
  have htext : s ++ ';' :: (trail.text ++ rowsTail k rs) = lead.text ++ (type.text ++ ' ' ::
      (name.text ++ ' ' :: '=' :: ' ' :: (c :: rest ++ ';' :: (trail.text ++ rowsTail k rs)))) := by
    simp [hs]
  have hne : s ≠ [] := by
    rw [hs]
    simp
  rw [← htext] at hfirst
  -- the match stops before the semicolon, where the search goes on and finds nothing in this row
  have hspaced : isSpaced [.mark ';'] = true := by decide
  have hsemicolon := fun b offset => replaceFrom_declaration_skips (b := b) (endsLine_rows trail k rs)
    hspaced (fun _ => rfl) (by decide) recastDeclaration offset
  simp only [spell_cons, spell_nil, Token.text, List.append_nil, List.cons_append,
    List.nil_append] at hsemicolon
  rw [List.append_assoc, List.cons_append, replaceFrom_first hne hfirst rfl hout, hsemicolon,
    replaceFrom_declaration_gap]
  simp only [lastOf_append, lastOf_cons, lastOf_nil, Text.size_append, Text.size_cons, Text.size_nil,
    Nat.add_assoc, Nat.add_zero, List.append_assoc, List.cons_append]

/-- A name does not begin with a control word and a space. -/
theorem Name.not_startsWith (n : Name) : Text.startsWith n.text "new " = false := by
  rw [Text.startsWith, Bool.eq_false_iff, Ne, List.isPrefixOf_iff_prefix]
  intro h
  exact absurd (n.plain ' ' (h.subset (by decide))) (by decide)

theorem Name.trimEnd (n : Name) : Text.trimEnd n.text = n.text := by
  have hblank : n.text.reverse.dropWhile isBlank = n.text.reverse := by
    obtain ⟨c, rest, hc⟩ := List.exists_cons_of_ne_nil (List.reverse_ne_nil_iff.mpr n.nonempty)
    have hmem : c ∈ nameChars := n.plain c (List.mem_reverse.mp (by rw [hc]; simp))
    have hall : (nameChars.all fun c => !isBlank c) = true := by decide
    have hblank : isBlank c = false := by simpa using List.all_eq_true.mp hall c hmem
    rw [hc, List.dropWhile_cons, hblank]
    rfl
  rw [Text.trimEnd, hblank, List.reverse_reverse]

/-- A line between spaces and tabs, when recasting takes it from its first form to its second. -/
def TakesRow (lead : Gap) (l : Line) (trail : Gap) (rs : List Row) (b : Option Char) (offset : Nat) :
    Prop :=
  declarationPattern.replaceFrom recastDeclaration b offset 0
      (lead.text ++ (l.form 1 ++ trail.text) ++ rowsTail 1 rs) =
    lead.text ++ (l.form 2 ++ trail.text) ++
      declarationPattern.replaceFrom recastDeclaration (lastOf b (lead.text ++ (l.form 1 ++ trail.text)))
        (offset + Text.size (lead.text ++ (l.form 1 ++ trail.text))) 0 (rowsTail 1 rs)

variable {lead trail : Gap} {rs : List Row} {b : Option Char} {offset : Nat}

/-- A declaration of a value loses its type. -/
theorem takesRow_declare (type name value : Name) (hb : startsLine b = true) :
    TakesRow lead (.simple (.declare type name value)) trail rs b offset := by
  obtain ⟨c, rest, hvalue⟩ := List.exists_cons_of_ne_nil value.nonempty
  have hplain : ∀ d ∈ c :: rest, d ∈ nameChars := hvalue ▸ value.plain
  have hrest : ∀ d ∈ rest, d ∉ ";\n\"".toList := by
    have hall : (nameChars.all fun d => !";\n\"".toList.elem d) = true := by decide
    intro d hd
    simpa using List.all_eq_true.mp hall d (hplain d (List.mem_cons_of_mem c hd))
  have htype : nonTypeWords.elem type.text = false := by
    have hsub : ∀ w ∈ nonTypeWords, w ∈ controlWords := by decide
    rw [Bool.eq_false_iff, Ne, List.elem_eq_mem, decide_eq_true_eq]
    exact fun h => type.notControl (hsub _ h)
  have hjava : lead.text ++ ((Line.simple (.declare type name value)).form 1 ++ trail.text) =
      lead.text ++ (type.text ++ ' ' :: (name.text ++ ' ' :: '=' :: ' ' :: c :: rest)) ++
        ';' :: trail.text := by
    rw [Line.form_of_lt (show 1 < 2 by decide)]
    unfold Line.java Simple.java
    simp [hvalue]
  have hgo : lead.text ++ ((Line.simple (.declare type name value)).form 2 ++ trail.text) =
      lead.text ++ (name.text ++ (" := ".toList ++ value.text)) ++ ';' :: trail.text := by
    rw [Line.form_of_le (show 2 ≤ 2 by decide)]
    unfold Line.recast Simple.go
    simp
  rw [TakesRow, hjava, hgo]
  -- the row is one match, whose groups are its parts
  apply replaceFrom_declaration_first hb lead type name (hplain c List.mem_cons_self) hrest rfl
  intro m hm
  have hstart : m.group 1 = [] := hm.group 0
  have hlead : m.group 2 = lead.text := hm.group 1
  have hkind : m.group 3 = type.text := hm.group 2
  have hname : m.group 4 = name.text := hm.group 3
  have hright : m.group 5 = value.text := (hm.group 4).trans hvalue.symm
  rw [recastDeclaration, hstart, hlead, hkind, hname, hright, htype, value.not_startsWith, value.trimEnd]
  simp

/-- A declaration of a new object stays, for a later rule. -/
theorem takesRow_construct (type name made : Name) (arguments : List Name) (hb : startsLine b = true) :
    TakesRow lead (.simple (.construct type name made arguments)) trail rs b offset := by
  have hrest : ∀ d ∈ "ew ".toList ++ (made.text ++ '(' :: (argumentText arguments ++ [')'])),
      d ∉ ";\n\"".toList := by
    have hall : (('(' :: ')' :: argumentChars).all fun d => !";\n\"".toList.elem d) = true := by decide
    have hnew : ∀ d ∈ "ew ".toList, d ∈ argumentChars := by decide
    intro d hd
    have hmem : d ∈ '(' :: ')' :: argumentChars := by
      have hplain := fun h => List.mem_append_left ", ".toList (made.plain d h)
      have harguments := mem_argumentChars arguments d
      have hhead := hnew d
      simp only [List.mem_append, List.mem_cons, List.not_mem_nil, or_false] at hd ⊢
      tauto
    simpa using List.all_eq_true.mp hall d hmem
  have hform : ∀ k < 9, lead.text ++
      ((Line.simple (.construct type name made arguments)).form k ++ trail.text) =
      lead.text ++ (type.text ++ ' ' :: (name.text ++ ' ' :: '=' :: ' ' :: 'n' ::
        ("ew ".toList ++ (made.text ++ '(' :: (argumentText arguments ++ [')']))))) ++
        ';' :: trail.text := by
    intro k hk
    rw [Line.form_of_lt hk]
    unfold Line.java Simple.java
    simp
  rw [TakesRow, hform 1 (by decide), hform 2 (by decide)]
  -- the row is one match, but the value starts with `new`, so the match is put back as it was
  apply replaceFrom_declaration_first hb lead type name (by decide) hrest rfl
  intro m hm
  have hright : m.group 5 = "new ".toList ++ (made.text ++ '(' :: (argumentText arguments ++ [')'])) :=
    hm.group 4
  have hnew : (m.group 5).startsWith "new " = true := by
    rw [hright]
    exact List.isPrefixOf_iff_prefix.mpr (List.prefix_append _ _)
  rw [recastDeclaration, hnew, Bool.or_true, if_pos rfl]
  exact hm.group_zero

/-- Lines of other kinds stay. -/
theorem takesRow_other {l : Line} (h : l.turn ≠ 2) (h' : l.turn ≠ 9) :
    TakesRow lead l trail rs b offset := by
  have hgap : ∀ c ∈ lead.text, isWordChar c = false := fun c hc => isWordChar_of_isGap (lead.isGap c hc)
  have hspaced : isSpaced (marks lead.text ++ l.tokens 1) = true := by
    rw [Line.isSpaced_marks_append hgap, l.isSpaced_tokens]
  have hstart : gapWord (twoWords assigns) (marks lead.text ++ l.tokens 1) = false := by
    rw [gapWord_gap _ lead.isGap, gapWord_tokens h h']
  have hall : everywhere noDeclaration (marks lead.text ++ l.tokens 1) = true := by
    rw [everywhere_noDeclaration_gap, everywhere_noDeclaration_tokens h h']
  have hskip := replaceFrom_declaration_skips (endsLine_rows trail 1 rs) hspaced (b := b)
    (fun _ => hstart) hall recastDeclaration offset
  rw [spell_append, spell_marks, Line.spell_tokens] at hskip
  have hform : l.form 2 = l.form 1 := Line.form_succ_of_ne h
  have htext : lead.text ++ (l.form 1 ++ trail.text) ++ rowsTail 1 rs =
      lead.text ++ l.form 1 ++ (trail.text ++ rowsTail 1 rs) := by simp
  rw [TakesRow, hform, htext, hskip, replaceFrom_declaration_gap]
  simp only [lastOf_append, Text.size_append, Nat.add_assoc, List.append_assoc]

/-- **Typed declarations**: each line that declares a variable with its type becomes one without, and
all other lines stay. -/
theorem recastDeclarations_rowsText (rs : List Row) :
    recastDeclarations (rowsText 1 rs) = rowsText 2 rs := by
  apply replaceAll_rowsText_of_row (rejects_of_canStart (by decide) (by decide))
  intro r rs b offset hb
  obtain ⟨lead, line?, trail⟩ := r
  cases line? with
  | none =>
    have hgap : ∀ c ∈ lead.text ++ trail.text, isGap c = true := by
      intro c hc
      rcases List.mem_append.mp hc with hc | hc
      · exact lead.isGap c hc
      · exact trail.isGap c hc
    have h := replaceFrom_declaration_gap ⟨lead.text ++ trail.text, hgap⟩ rs b recastDeclaration offset
      (k := 1)
    simpa only [Row.text, Option.elim_none, List.nil_append] using h
  | some l =>
    simp only [Row.text, Option.elim_some]
    by_cases h : l.turn = 2
    · have hl := l.eq_of_turn
      rw [h] at hl
      obtain ⟨type, name, value, rfl⟩ := hl
      exact takesRow_declare type name value hb
    · by_cases h' : l.turn = 9
      · have hl := l.eq_of_turn
        rw [h'] at hl
        obtain ⟨type, name, made, arguments, rfl⟩ := hl
        exact takesRow_construct type name made arguments hb
      · exact takesRow_other h h'

end GoDraft
