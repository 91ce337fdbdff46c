import GoDraft.Proofs.Body.Line
import GoDraft.Proofs.Scan.Letters

/-!
# GoDraft — lines and what stands between them

A body can be laid out in many ways: its lines stand side by side or apart, with any spaces, tabs and
line feeds between them. Putting each statement on a line of its own takes all layouts to one where every
two lines are apart.

* `Spacing`, `Layout`, `Layout.text` — lines with the spacing behind each;
* `StatementLines.runCode_line` — one line read;
* `splitStatements_layout` — a whole layout read.
-/

namespace GoDraft

/-! ## Reading code -/

namespace StatementLines

variable {st : StatementLines} {s out : Text} {bs : List OpenBrace} {c : Char}

/-- Takes the characters of a body that is all code. -/
def runCode (st : StatementLines) : Text → StatementLines
  | [] => st
  | c :: rest =>
    (if st.pending && isGap c then st else ((st.settle c).code c rest).push c).runCode rest

theorem run_eq_runCode {seen : List (Seen Char)} (h : ∀ x ∈ seen, x.zone = .code) (st : StatementLines) :
    st.run seen = st.runCode (seen.map Seen.letter) := by
  induction seen generalizing st with
  | nil => rfl
  | cons x rest ih =>
    rw [List.forall_mem_cons] at h
    rw [run, List.map_cons, runCode, feed, ih h.2, h.1]
    rfl

theorem runCode_cons (hp : st.pending = false) (c : Char) (r : Text) :
    st.runCode (c :: r) = ((st.code c r).push c).runCode r := by
  have hsettle : st.settle c = st := by
    rw [settle, hp]
    rfl
  rw [runCode, hsettle, hp, Bool.false_and, if_neg Bool.false_ne_true]

theorem code_of_quiet (hc : c ∉ "();\x7b\x7d".toList) (r : Text) : st.code c r = st := by
  unfold code
  split
  all_goals first | rfl | exact absurd (by decide) hc

/-- Characters that open, close and end nothing are written one after the other. -/
theorem runCode_of_code {n : Nat} (hs : ∀ c ∈ s, ∀ out r, (mk out bs n false).code c r = mk out bs n false)
    (r : Text) : (mk out bs n false).runCode (s ++ r) = (mk (s.reverse ++ out) bs n false).runCode r := by
  induction s generalizing out with
  | nil => rfl
  | cons c s ih =>
    rw [List.forall_mem_cons] at hs
    have hpush : (mk out bs n false).push c = mk (c :: out) bs n false := rfl
    rw [List.cons_append, runCode_cons rfl, hs.1, hpush, ih hs.2, List.reverse_cons, List.append_assoc,
      List.singleton_append]

theorem runCode_quiet (hs : ∀ c ∈ s, c ∉ "();\x7b\x7d".toList) (r : Text) (n : Nat) :
    (mk out bs n false).runCode (s ++ r) = (mk (s.reverse ++ out) bs n false).runCode r :=
  runCode_of_code (fun c hc _ r => code_of_quiet (hs c hc) r) r

/-- Inside parentheses a semicolon ends nothing. -/
theorem runCode_inParens (hs : ∀ c ∈ s, c ∉ "()\x7b\x7d".toList) (r : Text) (n : Nat) :
    (mk out bs (n + 1) false).runCode (s ++ r) =
      (mk (s.reverse ++ out) bs (n + 1) false).runCode r := by
  apply runCode_of_code
  intro c hc out r
  by_cases hend : c = ';'
  · rw [hend]
    rfl
  · apply code_of_quiet
    have h := hs c hc
    simp_all

theorem runCode_parens (hs : ∀ c ∈ s, c ∉ "()\x7b\x7d".toList) (r : Text) :
    (mk out bs 0 false).runCode ('(' :: (s ++ ')' :: r)) =
      (mk (')' :: (s.reverse ++ '(' :: out)) bs 0 false).runCode r := by
  have hopen : ((mk out bs 0 false).code '(' (s ++ ')' :: r)).push '(' = mk ('(' :: out) bs 1 false := rfl
  rw [runCode_cons rfl, hopen, runCode_inParens hs, runCode_cons rfl]
  rfl

theorem runCode_semicolon (r : Text) :
    (mk out bs 0 false).runCode (';' :: r) = (mk (';' :: out) bs 0 (breaksAfter r)).runCode r := by
  rw [runCode_cons rfl]
  rfl

/-- All open braces are those of blocks. -/
def Blocks (bs : List OpenBrace) : Prop := ∀ b ∈ bs, b = ⟨true, 0⟩

theorem runCode_openBrace (hbs : Blocks bs) (hblock : opensBlock out = true) (r : Text) :
    (mk out bs 0 false).runCode ('{' :: r) =
      (mk ('{' :: out) (⟨true, 0⟩ :: bs) 0 (breaksAfter r)).runCode r := by
  have hin : bs.head?.all (·.isBlock) = true := by
    cases bs with
    | nil => rfl
    | cons b bs =>
      rw [List.head?_cons, hbs b List.mem_cons_self]
      rfl
  rw [runCode_cons rfl, code, openBrace, hin, hblock]
  rfl

theorem runCode_closeBrace (hbs : Blocks bs) (hblank : lineIsBlank out = true) (r : Text) :
    (mk out bs 0 false).runCode ('}' :: r) =
      (mk ('}' :: out) bs.tail 0 (breaksAfter r && !continuesBlock r)).runCode r := by
  have hbrace : bs.head?.getD ⟨true, 0⟩ = ⟨true, 0⟩ := by
    cases bs with
    | nil => rfl
    | cons b bs => exact hbs b List.mem_cons_self
  rw [runCode_cons rfl, code, closeBrace, hbrace, if_pos rfl, freshLine, if_pos hblank]
  rfl

/-- Whether a line break is due behind a line that `r` follows. -/
def breaksBehind (l : Line) (r : Text) : Bool :=
  match l with
  | .closing => breaksAfter r && !continuesBlock r
  | _ => breaksAfter r

/-- A line is written as it stands, and only its end decides whether a line break is due. -/
def Reads (out : Text) (bs : List OpenBrace) (l : Line) (r : Text) : Prop :=
  ∃ bs', Blocks bs' ∧ (mk out bs 0 false).runCode (l.java ++ r) =
    (mk (l.java.reverse ++ out) bs' 0 (breaksBehind l r)).runCode r

theorem not_mem_of_spell {loud : Text} (hname : (nameChars.all fun c => !loud.elem c) = true) {ts : List Token}
    (hspaced : isSpaced ts = true) (h : marksAll (fun c => !loud.elem c) ts = true) :
    ∀ c ∈ spell ts, c ∉ loud := by
  intro c hc
  simpa using forall_mem_spell hname hspaced h c hc

section Line

variable {l : Line} {ts us : List Token}

theorem runCode_call (hts : isSpaced ts = true) (hus : isSpaced us = true)
    (hquiet : marksAll (fun c => !"();\x7b\x7d".toList.elem c) ts = true)
    (hin : marksAll (fun c => !"()\x7b\x7d".toList.elem c) us = true) (r : Text) :
    (mk out bs 0 false).runCode (spell ts ++ '(' :: (spell us ++ ')' :: r)) =
      (mk (')' :: ((spell us).reverse ++ '(' :: ((spell ts).reverse ++ out))) bs 0 false).runCode r := by
  rw [runCode_quiet (not_mem_of_spell (by decide) hts hquiet), runCode_parens (not_mem_of_spell (by decide) hus hin)]

theorem reads_statement (hbs : Blocks bs) (ts : List Token) (hjava : l.java = spell ts ++ [';'])
    (hl : ∀ r, breaksBehind l r = breaksAfter r) (hts : isSpaced ts = true)
    (hquiet : marksAll (fun c => !"();\x7b\x7d".toList.elem c) ts = true) (r : Text) :
    Reads out bs l r := by
  refine ⟨bs, hbs, ?_⟩
  rw [hjava, List.append_assoc, List.singleton_append, runCode_quiet (not_mem_of_spell (by decide) hts hquiet),
    runCode_semicolon, hl]
  simp

theorem reads_call (hbs : Blocks bs) (ts us : List Token)
    (hjava : l.java = spell ts ++ '(' :: (spell us ++ [')', ';']))
    (hl : ∀ r, breaksBehind l r = breaksAfter r) (hts : isSpaced ts = true) (hus : isSpaced us = true)
    (hquiet : marksAll (fun c => !"();\x7b\x7d".toList.elem c) ts = true)
    (hin : marksAll (fun c => !"()\x7b\x7d".toList.elem c) us = true) (r : Text) : Reads out bs l r := by
  refine ⟨bs, hbs, ?_⟩
  have htext : l.java ++ r = spell ts ++ '(' :: (spell us ++ ')' :: ';' :: r) := by simp [hjava]
  rw [htext, runCode_call hts hus hquiet hin, runCode_semicolon, hl, hjava]
  simp

theorem reads_header (hbs : Blocks bs) (ts us : List Token)
    (hjava : l.java = spell ts ++ '(' :: (spell us ++ [')', ' ', '{']))
    (hl : ∀ r, breaksBehind l r = breaksAfter r) (hts : isSpaced ts = true) (hus : isSpaced us = true)
    (hquiet : marksAll (fun c => !"();\x7b\x7d".toList.elem c) ts = true)
    (hin : marksAll (fun c => !"()\x7b\x7d".toList.elem c) us = true) (r : Text) : Reads out bs l r := by
  refine ⟨⟨true, 0⟩ :: bs, List.forall_mem_cons.mpr ⟨rfl, hbs⟩, ?_⟩
  have htext : l.java ++ r = spell ts ++ '(' :: (spell us ++ ')' :: ([' '] ++ '{' :: r)) := by simp [hjava]
  rw [htext, runCode_call hts hus hquiet hin, runCode_quiet (by decide), runCode_openBrace hbs (by rfl), hl,
    hjava]
  simp

theorem reads_simple (hbs : Blocks bs) (x : Simple) (r : Text) : Reads out bs (.simple x) r := by
  cases x with
  | declare type name value =>
    apply reads_statement hbs [.name type, .mark ' ', .name name, .mark ' ', .mark '=', .mark ' ', .name value]
    · unfold Line.java Simple.java
      simp [Token.text]
    all_goals first | exact fun _ => rfl | rfl
  | assign name value =>
    apply reads_statement hbs [.name name, .mark ' ', .mark '=', .mark ' ', .name value]
    · unfold Line.java Simple.java
      simp [Token.text]
    all_goals first | exact fun _ => rfl | rfl
  | increment name =>
    apply reads_statement hbs [.name name, .mark '+', .mark '+']
    · unfold Line.java Simple.java
      simp [Token.text]
    all_goals first | exact fun _ => rfl | rfl
  | giveBack value =>
    apply reads_statement hbs [.keyword "return", .mark ' ', .name value]
    · unfold Line.java Simple.java
      simp [Token.text]
    all_goals first | exact fun _ => rfl | rfl
  -- in a call the parentheses are read apart
  | print value =>
    apply reads_call hbs [.keyword "System", .mark '.', .keyword "out", .mark '.', .keyword "println"]
      [.name value]
    · unfold Line.java Simple.java
      simp [Token.text]
    all_goals first | exact fun _ => rfl | rfl
  | construct type name made arguments =>
    apply reads_call hbs [.name type, .mark ' ', .name name, .mark ' ', .mark '=', .mark ' ', .keyword "new",
      .mark ' ', .name made] (Line.argumentTokens arguments)
    · unfold Line.java Simple.java
      simp [Token.text, Line.spell_argumentTokens]
    · exact fun _ => rfl
    · rfl
    · exact Line.isSpaced_arguments arguments
    · rfl
    · exact Line.marksAll_argumentTokens (by decide) arguments

theorem reads_opening (hbs : Blocks bs) (h : Header) (r : Text) : Reads out bs (.opening h) r := by
  cases h with
  | branch c =>
    apply reads_header hbs [.keyword "if", .mark ' '] (Line.conditionTokens c [])
    · unfold Line.java Header.java
      simp [Token.text, Line.spell_conditionTokens]
    · exact fun _ => rfl
    · rfl
    · rw [Line.isSpaced_conditionTokens]
      rfl
    · rfl
    · exact Line.marksAll_conditionTokens (by decide) c []
  | loop c =>
    apply reads_header hbs [.keyword "while", .mark ' '] (Line.conditionTokens c [])
    · unfold Line.java Header.java
      simp [Token.text, Line.spell_conditionTokens]
    · exact fun _ => rfl
    · rfl
    · rw [Line.isSpaced_conditionTokens]
      rfl
    · rfl
    · exact Line.marksAll_conditionTokens (by decide) c []
  | count type name start c next =>
    apply reads_header hbs [.keyword "for", .mark ' '] (.name type :: .mark ' ' :: .name name :: .mark ' '
      :: .mark '=' :: .mark ' ' :: .name start :: .mark ';' :: .mark ' '
      :: Line.conditionTokens c [.mark ';', .mark ' ', .name next, .mark '+', .mark '+'])
    · unfold Line.java Header.java
      simp [Token.text, Line.spell_conditionTokens]
    · exact fun _ => rfl
    · rfl
    · simp only [isSpaced, startsMark, Line.isSpaced_conditionTokens]
      decide
    · rfl
    · simp only [marksAll_name, marksAll_mark, marksAll_nil,
        Line.marksAll_conditionTokens (p := fun c => !"()\x7b\x7d".toList.elem c) (by decide)]
      decide

theorem continuesBlock_while (gap : Gap) (r : Text) :
    continuesBlock (gap.text ++ ("while ".toList ++ r)) = true := by
  have hblank : ∀ c ∈ gap.text, isBlank c = true := by
    intro c hc
    rcases eq_of_isGap (gap.isGap c hc) with rfl | rfl <;> decide
  have htrim : Text.trimStart (gap.text ++ ("while ".toList ++ r)) = "while ".toList ++ r := by
    rw [Text.trimStart, List.dropWhile_append_of_pos hblank]
    rfl
  rw [continuesBlock, htrim]
  rfl

/-- The end of a block that goes on with `while` and its condition. -/
theorem runCode_while (hbs : Blocks bs) (hblank : lineIsBlank out = true) (gap : Gap) (c : Condition)
    (r : Text) :
    (mk out bs 0 false).runCode ('}' :: (gap.text ++ ("while (".toList ++ (c.text ++ ')' :: r)))) =
      (mk (')' :: (('}' :: (gap.text ++ ("while (".toList ++ c.text))).reverse ++ out)) bs.tail 0
        false).runCode r := by
  have htext : "while (".toList ++ (c.text ++ ')' :: r) =
      "while ".toList ++ ('(' :: (spell (Line.conditionTokens c []) ++ ')' :: r)) := by
    simp [Line.spell_conditionTokens]
  have hgap : ∀ d ∈ gap.text, d ∉ "();\x7b\x7d".toList := by
    intro d hd
    rcases eq_of_isGap (gap.isGap d hd) with rfl | rfl <;> decide
  have hspaced : isSpaced (Line.conditionTokens c []) = true := by
    rw [Line.isSpaced_conditionTokens]
    rfl
  have hmarks := Line.marksAll_conditionTokens (p := fun c => !"()\x7b\x7d".toList.elem c) (by decide) c []
  rw [htext, runCode_closeBrace hbs hblank, continuesBlock_while, Bool.not_true, Bool.and_false,
    runCode_quiet hgap, runCode_quiet (by decide), runCode_parens (not_mem_of_spell (by decide) hspaced hmarks)]
  simp [Line.spell_conditionTokens]

/-- Whether a line begins with a closing brace. -/
def startsBrace (l : Line) : Bool := l.java.head? == some '}'

theorem reads_line (hbs : Blocks bs) (l : Line) (hblank : startsBrace l = true → lineIsBlank out = true)
    (r : Text) : Reads out bs l r := by
  have htail : Blocks bs.tail := fun b hb => hbs b (List.mem_of_mem_tail hb)
  cases l with
  | simple x => exact reads_simple hbs x r
  | opening h => exact reads_opening hbs h r
  | openingDo =>
    refine ⟨⟨true, 0⟩ :: bs, List.forall_mem_cons.mpr ⟨rfl, hbs⟩, ?_⟩
    have htext : Line.openingDo.java ++ r = "do ".toList ++ '{' :: r := rfl
    rw [htext, runCode_quiet (by decide), runCode_openBrace hbs (by rfl)]
    rfl
  | closing =>
    refine ⟨bs.tail, htail, ?_⟩
    have htext : Line.closing.java ++ r = '}' :: r := rfl
    rw [htext, runCode_closeBrace hbs (hblank rfl)]
    rfl
  | closingElse =>
    refine ⟨⟨true, 0⟩ :: bs.tail, List.forall_mem_cons.mpr ⟨rfl, htail⟩, ?_⟩
    have htext : Line.closingElse.java ++ r = '}' :: (" else ".toList ++ '{' :: r) := rfl
    -- the brace is followed by `else`, so no line is begun behind it
    have hcontinues : continuesBlock (" else ".toList ++ '{' :: r) = true := rfl
    rw [htext, runCode_closeBrace hbs (hblank rfl), hcontinues, Bool.not_true, Bool.and_false,
      runCode_quiet (by decide), runCode_openBrace htail (by rfl)]
    rfl
  | closingWhile c =>
    refine ⟨bs.tail, htail, ?_⟩
    have htext : (Line.closingWhile c).java = '}' :: ([' '] ++ ("while (".toList ++ (c.text ++ [')']))) ++ [';'] := by
      unfold Line.java
      simp
    -- the condition stands between parentheses, in which nothing breaks a line
    have hread := runCode_while hbs (hblank rfl) ⟨[' '], by decide⟩ c (';' :: r)
    rw [htext]
    simp only [List.append_assoc, List.cons_append, List.nil_append] at hread ⊢
    rw [hread, runCode_semicolon]
    simp [breaksBehind]
  | joint gap c =>
    refine ⟨⟨true, 0⟩ :: bs.tail, List.forall_mem_cons.mpr ⟨rfl, htail⟩, ?_⟩
    have htext : (Line.joint gap c).java =
        '}' :: (gap.text ++ ("while (".toList ++ (c.text ++ [')']))) ++ [' ', '{'] := by
      unfold Line.java Header.java
      simp
    have hread := runCode_while hbs (hblank rfl) gap c ([' '] ++ '{' :: r)
    rw [htext]
    simp only [List.append_assoc, List.cons_append, List.nil_append] at hread ⊢
    rw [hread, runCode_cons rfl, code_of_quiet (by decide)]
    refine (runCode_openBrace htail (by rfl) r).trans ?_
    simp [breaksBehind]

end Line

end StatementLines

/-! ## Spacing -/

/-- Spaces, tabs and line feeds. -/
structure Spacing where
  text : Text
  isSpacing : ∀ c ∈ text, c ∈ " \t\n".toList

namespace Spacing

/-- A line feed. -/
def newline : Spacing := ⟨['\n'], by decide⟩

/-- Whether a spacing has no line feed. -/
def isFlat (w : Spacing) : Bool := !w.text.elem '\n'

theorem isGap_of_ne {w : Spacing} {c : Char} (hc : c ∈ w.text) (hne : c ≠ '\n') : isGap c = true := by
  have hall : (" \t\n".toList.all fun c => isGap c || c == '\n') = true := by decide
  have h := List.all_eq_true.mp hall c (w.isSpacing c hc)
  rw [Bool.or_eq_true, beq_iff_eq] at h
  exact h.resolve_right hne

theorem isGap_of_isFlat {w : Spacing} (h : w.isFlat = true) : ∀ c ∈ w.text, isGap c = true := by
  intro c hc
  apply isGap_of_ne hc
  rintro rfl
  simp [isFlat, hc] at h

/-- A spacing with a line feed begins with spaces and tabs up to the first one. -/
theorem exists_of_not_isFlat {w : Spacing} (h : w.isFlat = false) :
    ∃ (g : Gap) (v : Spacing), w.text = g.text ++ '\n' :: v.text := by
  have hmem : '\n' ∈ w.text := by simpa [isFlat] using h
  obtain ⟨g, v, htext, hg⟩ := List.eq_append_cons_of_mem hmem
  refine ⟨⟨g, fun c hc => ?_⟩, ⟨v, fun c hc => ?_⟩, htext⟩
  · apply isGap_of_ne (w := w)
    · rw [htext]
      exact List.mem_append_left _ hc
    · rintro rfl
      exact hg hc
  · apply w.isSpacing
    rw [htext]
    exact List.mem_append_right _ (List.mem_cons_of_mem _ hc)

theorem quiet (w : Spacing) : ∀ c ∈ w.text, c ∉ "();\x7b\x7d".toList := by
  have hall : (" \t\n".toList.all fun c => !"();\x7b\x7d".toList.elem c) = true := by decide
  intro c hc
  simpa using List.all_eq_true.mp hall c (w.isSpacing c hc)

theorem lineIsBlank_of_reverse {w : Spacing} {out : Text} (h : w.isFlat = false ∨ lineIsBlank out = true) :
    lineIsBlank (w.text.reverse ++ out) = true := by
  -- read backwards, the spacing is blank up to its first line feed or up to what was written before
  have hrun : ∀ u : Text, (∀ c ∈ u, c ∈ " \t\n".toList) → ('\n' ∈ u ∨ lineIsBlank out = true) →
      lineIsBlank (u ++ out) = true := by
    intro u
    induction u with
    | nil => exact fun _ h => h.resolve_left List.not_mem_nil
    | cons c u ih =>
      intro hu hline
      rw [List.forall_mem_cons] at hu
      by_cases hc : c = '\n'
      · rw [hc]
        rfl
      · have hblank : isPlainBlank c = true := by
          have hall : (" \t\n".toList.all isPlainBlank) = true := by decide
          exact List.all_eq_true.mp hall c hu.1
        have hrest := ih hu.2 (hline.imp_left fun h => (List.mem_cons.mp h).resolve_left (Ne.symm hc))
        rw [lineIsBlank, List.cons_append, List.takeWhile_cons_of_pos (by simpa using hc), List.all_cons,
          hblank, Bool.true_and]
        exact hrest
  apply hrun _ fun c hc => w.isSpacing c (List.mem_reverse.mp hc)
  apply h.imp_left
  intro hflat
  simpa [isFlat] using hflat

end Spacing

/-! ## What follows the end of a line -/

section Behind

variable {w : Spacing} {l : Line} {t : Text}

theorem breaksAfter_of_not_isFlat (h : w.isFlat = false) (t : Text) : breaksAfter (w.text ++ t) = false := by
  obtain ⟨g, v, htext⟩ := Spacing.exists_of_not_isFlat h
  have hahead : (w.text ++ t).dropWhile isGap = '\n' :: (v.text ++ t) := by
    rw [htext, List.append_assoc, List.dropWhile_append_of_pos g.isGap]
    rfl
  rw [breaksAfter, hahead]
  rfl

theorem breaksAfter_of_isFlat (h : w.isFlat = true) : breaksAfter w.text = false := by
  have hahead : w.text.dropWhile isGap = [] := by
    rw [← List.append_nil w.text, List.dropWhile_append_of_pos (Spacing.isGap_of_isFlat h)]
    rfl
  rw [breaksAfter, hahead]
  rfl

theorem breaksAfter_line (h : w.isFlat = true) (l : Line) (t : Text) :
    breaksAfter (w.text ++ (l.java ++ t)) = true := by
  obtain ⟨c, s, hjava, hc⟩ := l.exists_form 0
  rw [l.form_zero] at hjava
  have hall : (('}' :: nameChars).all fun c => !isGap c && c != '\n' && c != '\r' && c != '/') = true := by
    decide
  have hc := List.all_eq_true.mp hall c hc
  simp only [Bool.and_eq_true, Bool.not_eq_true', bne_iff_ne] at hc
  obtain ⟨⟨⟨hgap, hnewline⟩, hreturn⟩, hslash⟩ := hc
  have hahead : (w.text ++ (l.java ++ t)).dropWhile isGap = c :: (s ++ t) := by
    rw [hjava, List.dropWhile_append_of_pos (Spacing.isGap_of_isFlat h), List.cons_append,
      List.dropWhile_cons_of_neg (by simp [hgap])]
  have hcomment : ∀ u : Text, Text.startsWith (c :: (s ++ t)) ('/' :: u) = false := by
    intro u
    rw [Text.startsWith, List.isPrefixOf, beq_false_of_ne (Ne.symm hslash), Bool.false_and]
  have hline : Text.startsWith (c :: (s ++ t)) "//" = false := hcomment _
  have hblock : Text.startsWith (c :: (s ++ t)) "/*" = false := hcomment _
  rw [breaksAfter, hahead, hline, hblock]
  simp [hnewline, hreturn]

/-- Whether a line begins with a word that goes on with a block. -/
def Line.continues (l : Line) : Bool :=
  match l.javaTokens with
  | .name n :: _ => blockContinuations.elem n.text
  | .keyword w :: _ => blockContinuations.elem w
  | _ => false

theorem exists_javaTokens (l : Line) :
    (∃ tok c ts, l.javaTokens = tok :: .mark c :: ts ∧ tok.isWord = true) ∨
      ∃ ts, l.javaTokens = .mark '}' :: ts := by
  cases l with
  | simple s => cases s <;> simp [Line.javaTokens, Token.isWord]
  | opening h => cases h <;> simp [Line.javaTokens, Token.isWord]
  | _ => simp [Line.javaTokens, Token.isWord]

theorem continuesBlock_line (h : w.isFlat = true) (hl : l.continues = false) (t : Text) :
    continuesBlock (w.text ++ (l.java ++ t)) = false := by
  have hblank : ∀ c ∈ w.text, isBlank c = true := by
    intro c hc
    rcases eq_of_isGap (Spacing.isGap_of_isFlat h c hc) with rfl | rfl <;> decide
  have hspaced := l.isSpaced_javaTokens
  rw [continuesBlock, Text.trimStart, List.dropWhile_append_of_pos hblank, ← l.spell_javaTokens]
  rw [Line.continues] at hl
  -- a line begins with a word and a mark, or with a brace, which continues nothing
  rcases exists_javaTokens l with ⟨tok, c, ts, htokens, hw⟩ | ⟨ts, htokens⟩
  · rw [htokens] at hspaced hl ⊢
    have hplain := Token.plain_of_isWord hspaced hw
    obtain ⟨d, s, hd⟩ := List.exists_cons_of_ne_nil (Token.text_ne_nil hspaced)
    have hstop : stopsAt isWordChar (spell (.mark c :: ts) ++ t) = true := by
      have hmark := isSpaced_of_cons hspaced
      rw [isSpaced, Bool.and_eq_true] at hmark
      exact hmark.1
    have hhead : d ∉ ";),".toList ∧ isBlank d = false := by
      have hall : (nameChars.all fun d => !(";),".toList.elem d) && !isBlank d) = true := by decide
      have hmem := List.all_eq_true.mp hall d (hplain d (by rw [hd]; exact List.mem_cons_self))
      simpa using hmem
    -- the word is whole, so it would be one of the words that continue a block
    have hkeywords : blockContinuations.any
        (startsKeyword none (tok.text ++ (spell (.mark c :: ts) ++ t))) = false := by
      rw [List.any_eq_false]
      intro kw hkw
      have hkwplain : ∀ kw ∈ blockContinuations, ∀ k ∈ kw, k ∈ nameChars := by decide
      have hne : tok.text ≠ kw := by
        rintro rfl
        cases tok with
        | mark c => exact absurd hw Bool.false_ne_true
        | _ => simp_all [Token.text]
      rw [startsKeyword_of_ne (hkwplain kw hkw) hplain hne hstop]
      exact Bool.false_ne_true
    have hdrop : (tok.text ++ (spell (.mark c :: ts) ++ t)).dropWhile isBlank =
        tok.text ++ (spell (.mark c :: ts) ++ t) := by
      rw [hd, List.cons_append, List.dropWhile_cons_of_neg (by simp [hhead.2])]
    rw [spell_cons, List.append_assoc]
    simp only [hdrop, hkeywords, Bool.or_false]
    rw [hd, List.cons_append, List.head?_cons, Option.any_some]
    simpa using hhead.1
  · rw [htokens]
    rfl

end Behind

/-! ## Layouts -/

/-- Lines with the spacing behind each. -/
abbrev Layout := List (Line × Spacing)

namespace Layout

/-- The text of a layout. -/
def text : Layout → Text
  | [] => []
  | (l, w) :: x => l.java ++ (w.text ++ text x)

/-- No line goes on with a block that ends before it on the same line. -/
def Apart : Layout → Prop
  | [] => True
  | [_] => True
  | (l, w) :: (l', w') :: x =>
    (l = .closing → w.isFlat = true → l'.continues = false) ∧ Apart ((l', w') :: x)

/-- A layout with a line feed between every two lines. -/
def settled : Layout → Layout
  | [] => []
  | [y] => [y]
  | (l, w) :: y :: x => (l, if w.isFlat then .newline else w) :: settled (y :: x)

end Layout

namespace StatementLines

/-- A line break that is due comes before the next line, in place of the spaces there. -/
theorem runCode_pending (out : Text) (bs : List OpenBrace) (l : Line) (t : Text) : ∀ {u : Text},
    (∀ c ∈ u, isGap c = true) → (mk out bs 0 true).runCode (u ++ (l.java ++ t)) =
      (mk ('\n' :: out) bs 0 false).runCode (l.java ++ t)
  | [], _ => by
    obtain ⟨c, s, hjava, hc⟩ := l.exists_form 0
    rw [l.form_zero] at hjava
    have hall : (('}' :: nameChars).all fun c => !isGap c && c != '\n' && c != '\r') = true := by decide
    have hc := List.all_eq_true.mp hall c hc
    simp only [Bool.and_eq_true, Bool.not_eq_true', bne_iff_ne] at hc
    obtain ⟨⟨hgap, hnewline⟩, hreturn⟩ := hc
    have hsettle : (mk out bs 0 true).settle c = mk ('\n' :: out) bs 0 false := by
      simp [settle, hnewline, hreturn]
    rw [List.nil_append, hjava, List.cons_append, runCode, hgap, Bool.and_false,
      if_neg Bool.false_ne_true, hsettle, runCode_cons rfl]
  | c :: u, hu => by
    rw [List.forall_mem_cons] at hu
    rw [List.cons_append, runCode, hu.1, Bool.and_true, if_pos rfl, runCode_pending out bs l t hu.2]

theorem breaksBehind_eq_false {r : Text} (l : Line) (h : breaksAfter r = false) :
    breaksBehind l r = false := by
  cases l with
  | closing => rw [breaksBehind, h, Bool.false_and]
  | _ => exact h

theorem breaksBehind_line {w : Spacing} (hw : w.isFlat = true) {l l' : Line}
    (hl : l = .closing → l'.continues = false) (t : Text) :
    breaksBehind l (w.text ++ (l'.java ++ t)) = true := by
  have hbreak := breaksAfter_line hw l' t
  cases l with
  | closing => rw [breaksBehind, hbreak, continuesBlock_line hw (hl rfl)]; rfl
  | _ => exact hbreak

-- The induction is on the lines of the layout; before each of them the last line written is blank.
theorem runCode_layout : ∀ {x : Layout}, x.Apart → ∀ (out : Text) (bs : List OpenBrace), Blocks bs →
    lineIsBlank out = true →
      ((mk out bs 0 false).runCode x.text).out = x.settled.text.reverse ++ out
  | [], _, _, _, _, _ => rfl
  | [(l, w)], _, out, bs, hbs, hout => by
    obtain ⟨bs', -, hread⟩ := reads_line hbs l (fun _ => hout) (w.text ++ [])
    have hend : breaksBehind l (w.text ++ []) = false := by
      apply breaksBehind_eq_false
      by_cases hw : w.isFlat = true
      · rw [List.append_nil, breaksAfter_of_isFlat hw]
      · rw [breaksAfter_of_not_isFlat (Bool.not_eq_true _ ▸ hw)]
    rw [Layout.text, Layout.text, hread, hend, runCode_quiet w.quiet]
    simp [runCode, Layout.settled, Layout.text]
  | (l, w) :: (l', w') :: x, hx, out, bs, hbs, hout => by
    have hnext : Layout.text ((l', w') :: x) = l'.java ++ (w'.text ++ Layout.text x) := rfl
    obtain ⟨bs', hbs', hread⟩ := reads_line hbs l (fun _ => hout)
      (w.text ++ Layout.text ((l', w') :: x))
    rw [Layout.text, hread]
    by_cases hw : w.isFlat = true
    · -- on one line with the next: a line feed is put in and the blanks are dropped
      have hbreak := breaksBehind_line hw (fun hl => hx.1 hl hw) (w'.text ++ Layout.text x)
      rw [hnext, hbreak, runCode_pending _ _ _ _ (Spacing.isGap_of_isFlat hw), ← hnext,
        runCode_layout hx.2 _ _ hbs' rfl]
      simp [Layout.settled, Layout.text, hw, Spacing.newline]
    · rw [Bool.not_eq_true] at hw
      -- on lines of their own: all stays as it is
      have hblank : lineIsBlank (w.text.reverse ++ (l.java.reverse ++ out)) = true :=
        Spacing.lineIsBlank_of_reverse (.inl hw)
      rw [breaksBehind_eq_false l (breaksAfter_of_not_isFlat hw _), runCode_quiet w.quiet,
        runCode_layout hx.2 _ _ hbs' hblank]
      simp [Layout.settled, Layout.text, hw]

end StatementLines

theorem Spacing.mem_chars (w : Spacing) : ∀ c ∈ w.text, c ∈ Line.chars := by
  have hsub : ∀ c ∈ " \t\n".toList, c ∈ Line.chars := by decide
  exact fun c hc => hsub c (w.isSpacing c hc)

theorem Layout.mem_chars : ∀ {x : Layout}, ∀ c ∈ x.text, c ∈ Line.chars
  | [], _, hc => absurd hc List.not_mem_nil
  | (l, w) :: x, c, hc => by
    rw [Layout.text, List.mem_append, List.mem_append] at hc
    rcases hc with hc | hc | hc
    · exact l.mem_chars 0 c (by rwa [l.form_zero])
    · exact w.mem_chars c hc
    · exact Layout.mem_chars c hc

/-- A layout is all code. -/
theorem Layout.leavesCode (w : Spacing) (x : Layout) :
    ∀ c ∈ w.text ++ x.text, (Marked.mark c).leavesCode = false := by
  intro c hc
  apply leavesCode_of_char
  apply Line.not_quote_of_mem_chars
  rcases List.mem_append.mp hc with hc | hc
  · exact w.mem_chars c hc
  · exact Layout.mem_chars c hc

/-- **One statement a line**: a layout is settled, and nothing else changes. -/
theorem splitStatements_layout (w : Spacing) {x : Layout} (hx : x.Apart) :
    splitStatements (w.text ++ x.text) = w.text ++ x.settled.text := by
  have hstart : ({} : StatementLines) = .mk [] [] 0 false := rfl
  have hblank : lineIsBlank (w.text.reverse ++ []) = true := Spacing.lineIsBlank_of_reverse (.inr rfl)
  have hbraces : StatementLines.Blocks [] := fun _ h => absurd h List.not_mem_nil
  rw [splitStatements, StatementLines.run_eq_runCode (zone_of_mem_scan (Layout.leavesCode w x)),
    map_letter_scan, hstart, StatementLines.runCode_quiet w.quiet,
    StatementLines.runCode_layout hx _ _ hbraces hblank]
  simp

end GoDraft
