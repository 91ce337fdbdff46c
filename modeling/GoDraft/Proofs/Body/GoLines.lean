import GoDraft.Go.Functions
import GoDraft.Proofs.Body.CallRules
import GoDraft.Proofs.Body.DeclarationRules
import GoDraft.Proofs.Text.Lines
import GoDraft.Proofs.Text.Trim
import Mathlib.Data.List.Forall2
import Mathlib.Data.List.TakeWhile

/-!
# GoDraft — from rows to lines of Go

On rows of statements the rules do their work one after another, each on its own kind of line. What they
leave has semicolons and spaces, which the last step drops, so that the Go lines of the statements are
left and nothing else.

* `Recaster.recast_of_rows` — the rules in their order;
* `Line.trim_dropTerminators` — a line without its semicolon and the spaces around it;
* `bodyLines_stripTerminators` — the lines of a body.
-/

namespace GoDraft

open Pattern

/-! ## The rules in their order -/

theorem applyAll_controlRules (rs : List Row) :
    Rule.applyAll controlRules (rowsText 2 rs) = rowsText 7 rs := by
  have hif : ifRule.apply (rowsText 2 rs) = rowsText 3 rs :=
    replaceAll_rowsText_of_line (by decide) takesLine_ifRule rs
  have hwhile : whileRule.apply (rowsText 3 rs) = rowsText 4 rs :=
    replaceAll_rowsText_of_line (by decide) takesLine_whileRule rs
  have hfor : forRule.apply (rowsText 4 rs) = rowsText 5 rs :=
    replaceAll_rowsText_of_line (by decide) takesLine_forRule rs
  have hdo : doRule.apply (rowsText 5 rs) = rowsText 6 rs :=
    replaceAll_rowsText_of_line (by decide) takesLine_doRule rs
  have huntil : untilRule.apply (rowsText 6 rs) = rowsText 7 rs :=
    replaceAll_rowsText_of_line (by decide) takesLine_untilRule rs
  simp only [controlRules, Rule.applyAll, List.foldl_cons, List.foldl_nil, hif, hwhile, hfor, hdo, huntil]

theorem applyAll_constructionRules (rs : List Row) :
    Rule.applyAll constructionRules (rowsText 8 rs) = rowsText 9 rs := by
  have hdeclared : declaredObjectRule.apply (rowsText 8 rs) = rowsText 9 rs :=
    replaceAll_rowsText_of_line (by decide) takesLine_declaredObjectRule rs
  have hnew : newObjectRule.apply (rowsText 9 rs) = rowsText 9 rs :=
    replaceAll_rowsText_of_line (by decide) takesLine_newObjectRule rs
  simp only [constructionRules, Rule.applyAll, List.foldl_cons, List.foldl_nil, hdeclared, hnew]

/-- **The rules on rows**: outside methods with a receiver, every line takes its new form. -/
theorem Recaster.recast_of_rows {r : Recaster} (hr : r.fieldAccess = []) {body : Text} {rs : List Row}
    (h : splitStatements body = rowsText 0 rs) : r.recast body = stripTerminators (rowsText 9 rs) := by
  have hlibrary : (if r.libraryCalls then Rule.applyAll libraryRules (rowsText 0 rs) else rowsText 0 rs) =
      rowsText 0 rs := by
    rw [applyAll_libraryRules, ite_self]
  have hfields : ∀ t : Text, Rule.applyAll r.fieldAccess t = t := by
    rw [hr]
    exact fun _ => rfl
  have hreturn : returnRule.apply (rowsText 7 rs) = rowsText 8 rs :=
    replaceAll_rowsText_of_line (by decide) takesLine_returnRule rs
  rw [Recaster.recast]
  simp only [h, hlibrary, applyAll_printRules, applyAll_concatRules, recastDeclarations_rowsText, hfields,
    applyAll_controlRules, apply_callRule (show 1 ≤ 7 by decide), hreturn, applyAll_constructionRules]

/-! ## Terminators -/

namespace Terminators

variable {st : Terminators} {b : Option Char} {c : Char} {s t : Text}

/-- The walk stands outside literals and writes what it reads. -/
structure Idle (st : Terminators) : Prop where
  quote : st.quote = none
  skipping : st.skipping = false

/-- Whether the header of a `for` is being read behind a character. -/
def headerAfter (st : Terminators) (b : Option Char) (c : Char) (t : Text) : Bool :=
  if c = 'f' ∧ startsKeyword b (c :: t) "for" then true else if c = '{' then false else st.forHeader

theorem walk_cons (h : st.Idle) (hc : c ∉ "\"'/".toList) (hend : c = ';' → st.forHeader = true)
    (t : Text) : st.walk b (c :: t) =
      { st.push c with forHeader := st.headerAfter b c t }.walk (some c) t := by
  have hquote : ¬ (c = '"' ∨ c = '\'') := by
    rintro (rfl | rfl) <;> exact hc (by decide)
  have hslash : ¬ (c = '/' ∧ t.head? = some '/') := by
    rintro ⟨rfl, -⟩
    exact hc (by decide)
  have hsemicolon : ¬ (c = ';' ∧ (!st.forHeader) = true) := by
    rintro ⟨hc', hheader⟩
    rw [hend hc'] at hheader
    exact absurd hheader (by decide)
  rw [walk, h.quote, h.skipping, Bool.false_and, if_neg Bool.false_ne_true, if_neg hquote,
    if_neg hslash, headerAfter]
  by_cases hfor : c = 'f' ∧ startsKeyword b (c :: t) "for"
  · rw [if_pos hfor, if_pos hfor]
  · rw [if_neg hfor, if_neg hfor]
    by_cases hbrace : c = '{'
    · rw [if_pos hbrace, if_pos hbrace]
    · rw [if_neg hbrace, if_neg hbrace, if_neg hsemicolon]
      rfl

theorem Idle.push (h : st.Idle) (c : Char) (forHeader : Bool) :
    Idle { st.push c with forHeader := forHeader } := ⟨h.quote, rfl⟩

/-- A line without semicolons is written as it stands. -/
theorem walk_of_not_mem (h : st.Idle) (ht : ∀ c ∈ t, c ∉ "\"'/".toList) (hend : ';' ∉ t) :
    st.walk b t = st.out.reverse ++ t := by
  induction t generalizing st b with
  | nil => rw [walk, List.append_nil]
  | cons c t ih =>
    rw [List.forall_mem_cons] at ht
    rw [List.mem_cons, not_or] at hend
    rw [walk_cons h ht.1 (fun hc => absurd hc.symm hend.1), ih (h.push c _) ht.2 hend.2]
    simp [Terminators.push]

/-- The header of a `for` keeps its semicolons. -/
theorem walk_header (h : st.Idle) (hheader : st.forHeader = true) (hs : ∀ c ∈ s, c ∉ "\"'/".toList)
    (hbrace : '{' ∉ s) (ht : ∀ c ∈ t, c ∉ "\"'/".toList) (hend : ';' ∉ t) :
    st.walk b (s ++ '{' :: t) = st.out.reverse ++ (s ++ '{' :: t) := by
  induction s generalizing st b with
  | nil =>
    rw [List.nil_append, walk_cons h (by decide) (fun h => absurd h (by decide)),
      walk_of_not_mem (h.push '{' _) ht hend]
    simp [Terminators.push]
  | cons c s ih =>
    rw [List.forall_mem_cons] at hs
    rw [List.mem_cons, not_or] at hbrace
    have hafter : st.headerAfter b c (s ++ '{' :: t) = true := by
      rw [headerAfter, if_neg (Ne.symm hbrace.1), hheader, ite_self]
    rw [List.cons_append, walk_cons h hs.1 (fun _ => hheader), hafter,
      ih (h.push c true) rfl hs.2 hbrace.2]
    simp [Terminators.push]

/-- The keyword `for` stands nowhere in a text that another one follows. -/
def LacksFor : Option Char → Text → Text → Prop
  | _, [], _ => True
  | b, c :: s, t => startsKeyword b (c :: (s ++ t)) "for" = false ∧ LacksFor (some c) s t

/-- A semicolon at the end of a line is dropped with what follows it. -/
theorem walk_terminated (h : st.Idle) (hheader : st.forHeader = false)
    (hs : ∀ c ∈ s, c ∉ "\"'/".toList) (hend : ';' ∉ s) (hfor : LacksFor b s (';' :: t))
    (ht : ∀ c ∈ t, isBlank c = true) : st.walk b (s ++ ';' :: t) = st.out.reverse ++ s := by
  induction s generalizing st b with
  | nil =>
    have hblank : Text.trimStart t = [] := by
      rw [Text.trimStart, List.dropWhile_eq_nil_iff]
      exact ht
    have hsemicolon : startsKeyword b (';' :: t) "for" = false := rfl
    rw [List.nil_append, List.append_nil, walk, h.quote, h.skipping, hsemicolon, hheader, hblank]
    simp
  | cons c s ih =>
    rw [List.forall_mem_cons] at hs
    rw [List.mem_cons, not_or] at hend
    have hafter : st.headerAfter b c (s ++ ';' :: t) = false := by
      rw [headerAfter, hfor.1, hheader, ite_self]
      simp
    rw [List.cons_append, walk_cons h hs.1 (fun hc => absurd hc.symm hend.1), hafter,
      ih (h.push c false) rfl hs.2 hend.2 hfor.2]
    simp [Terminators.push]

theorem lacksFor_append : ∀ {s : Text} {b : Option Char} {s' t : Text}, LacksFor b s (s' ++ t) →
    LacksFor (lastOf b s) s' t → LacksFor b (s ++ s') t
  | [], _, _, _, _, h => h
  | c :: s, b, s', t, h, h' => by
    rw [lastOf_cons] at h'
    rw [List.cons_append, LacksFor, List.append_assoc]
    exact ⟨h.1, lacksFor_append h.2 h'⟩

theorem lacksFor_inside : ∀ {s : Text} {c : Char}, isNameChar c = true → (∀ d ∈ s, d ∈ nameChars) →
    LacksFor (some c) s t
  | [], _, _, _ => trivial
  | d :: s, c, hc, hs => by
    rw [List.forall_mem_cons] at hs
    refine ⟨?_, lacksFor_inside (isNameChar_of_mem hs.1) hs.2⟩
    rw [startsKeyword, Option.any_some, hc, Bool.not_true, Bool.and_false, Bool.false_and]

/-- A word other than the keyword, before a character outside words. -/
theorem lacksFor_word (hs : ∀ c ∈ s, c ∈ nameChars) (hne : s ≠ "for".toList)
    (ht : stopsAt isWordChar t = true) : LacksFor b s t := by
  cases s with
  | nil => trivial
  | cons c s =>
    exact ⟨startsKeyword_of_ne (by decide) hs hne ht, lacksFor_inside
      (isNameChar_of_mem (hs c List.mem_cons_self)) fun d hd => hs d (List.mem_cons_of_mem c hd)⟩

theorem lacksFor_spell (ht : stopsAt isWordChar t = true) : ∀ {ts : List Token} {b : Option Char},
    isSpaced ts = true → lacks "for" ts = true → LacksFor b (spell ts) t
  | [], _, _, _ => trivial
  | tok :: ts, b, hspaced, hlacks => by
    rw [lacks, List.all_cons, Bool.and_eq_true] at hlacks
    refine lacksFor_append ?_ (lacksFor_spell ht (isSpaced_of_cons hspaced) hlacks.2)
    cases tok with
    | name n =>
      apply lacksFor_word n.plain _ (stopsAt_of_isWord hspaced rfl ht)
      intro h
      exact n.notControl (h ▸ by decide)
    | keyword w =>
      have hw : w ≠ "for".toList := by simpa using hlacks.1
      exact lacksFor_word (Token.plain_of_isWord hspaced rfl) hw (stopsAt_of_isWord hspaced rfl ht)
    | mark c =>
      have hc : c ≠ 'f' := by
        rw [isSpaced, Bool.and_eq_true, Bool.not_eq_true'] at hspaced
        rintro rfl
        exact absurd hspaced.1 (by decide)
      exact ⟨startsKeyword_eq_false hc, trivial⟩

theorem walk_gap : ∀ {g : Text} {st : Terminators} {b : Option Char}, st.Idle →
    (∀ c ∈ g, isGap c = true) → st.walk b (g ++ t) =
      { st with out := g.reverse ++ st.out }.walk (lastOf b g) t
  | [], _, _, _, _ => rfl
  | c :: g, st, b, h, hg => by
    rw [List.forall_mem_cons] at hg
    have hstep : { st.push c with forHeader := st.headerAfter b c (g ++ t) } =
        { st with out := c :: st.out } := by
      have hafter : st.headerAfter b c (g ++ t) = st.forHeader := by
        rcases eq_of_isGap hg.1 with rfl | rfl <;> rfl
      rw [hafter, Terminators.push, ← h.skipping]
    have hquote : c ∉ "\"'/".toList ∧ c ≠ ';' := by
      rcases eq_of_isGap hg.1 with rfl | rfl <;> decide
    have hidle : Idle { st with out := c :: st.out } := ⟨h.quote, h.skipping⟩
    rw [List.cons_append, walk_cons h hquote.1 (fun hc => absurd hc hquote.2), hstep,
      walk_gap hidle hg.2]
    simp

end Terminators

/-! ## A line of Go -/

theorem isBlank_of_mem_nameChars {c : Char} (h : c ∈ nameChars) : isBlank c = false := by
  have hall : (nameChars.all fun c => !isBlank c) = true := by decide
  simpa using List.all_eq_true.mp hall c h

theorem Name.exists_head (n : Name) : ∃ c, n.text.head? = some c ∧ isBlank c = false := by
  obtain ⟨c, t, h⟩ := List.exists_cons_of_ne_nil n.nonempty
  exact ⟨c, by rw [h, List.head?_cons], isBlank_of_mem_nameChars (n.plain c (by rw [h]; simp))⟩

theorem Name.exists_last (n : Name) : ∃ c, n.text.getLast? = some c ∧ isBlank c = false :=
  ⟨n.text.getLast n.nonempty, List.getLast?_eq_some_getLast n.nonempty,
    isBlank_of_mem_nameChars (n.plain _ (List.getLast_mem n.nonempty))⟩

/-- Dropping its terminators leaves the start of a line, and that is another text between blanks. -/
structure Cleans (line g : Text) : Prop where
  start : dropTerminators line <+: line
  trim : Text.trim (dropTerminators line) = g

/-- The pieces of a text between line feeds, cleaned one by one. -/
def CleansAll (t : Text) (gs : List Text) : Prop := List.Forall₂ Cleans (t.pieces '\n') gs

namespace Line

theorem go_ends (l : Line) :
    ∀ g ∈ l.go, g.head?.any isBlank = false ∧ g.getLast?.any isBlank = false := by
  intro g hg
  match l with
  | simple (.declare _ name value) | simple (.assign name value) =>
    obtain ⟨c, hc, hhead⟩ := name.exists_head
    obtain ⟨d, hd, hlast⟩ := value.exists_last
    unfold go Simple.go at hg
    simp_all [List.getLast?_cons]
  | simple (.increment name) =>
    obtain ⟨c, hc, hhead⟩ := name.exists_head
    unfold go Simple.go at hg
    simp_all [List.getLast?_cons]
    decide
  | simple (.print value) =>
    unfold go Simple.go at hg
    simp_all [List.getLast?_cons]
    decide
  | simple (.giveBack value) =>
    obtain ⟨d, hd, hlast⟩ := value.exists_last
    unfold go Simple.go at hg
    simp_all [List.getLast?_cons]
    decide
  | simple (.construct _ name made arguments) =>
    obtain ⟨c, hc, hhead⟩ := name.exists_head
    unfold go Simple.go at hg
    simp_all [List.getLast?_cons]
    decide
  | opening (.branch c) | opening (.loop c) | opening (.count _ _ _ c _) | joint gap c =>
    unfold go Header.go at hg
    simp_all [List.getLast?_cons]
    decide
  | openingDo | closing | closingElse =>
    unfold go at hg
    simp_all [List.getLast?_cons]
    decide
  -- every line of the four by itself
  | closingWhile c =>
    unfold go at hg
    rw [List.mem_cons, List.mem_cons, List.mem_cons, List.mem_singleton] at hg
    rcases hg with rfl | rfl | rfl | rfl
    · simp [List.getLast?_cons]
      decide
    all_goals decide

theorem form_nine (l : Line) : l.form 9 = l.recast := by
  apply form_of_le
  cases l with
  | simple s => cases s <;> simp [turn]
  | opening h => cases h <;> simp [turn]
  | _ => simp [turn]

theorem isBlank_of_mem_gap (g : Gap) : ∀ c ∈ g.text, isBlank c = true := by
  intro c hc
  rcases eq_of_isGap (g.isGap c hc) with rfl | rfl <;> decide

theorem mem_chars_of_mem_gap (g : Gap) : ∀ c ∈ g.text, c ∈ chars := by
  intro c hc
  rcases eq_of_isGap (g.isGap c hc) with rfl | rfl <;> decide

/-- A text without semicolons between spaces and tabs. -/
theorem cleans_plain {t : Text} (lead trail : Gap) (ht : ∀ c ∈ t, c ∈ chars) (hend : ';' ∉ t)
    (hends : t.head?.any isBlank = false ∧ t.getLast?.any isBlank = false) :
    Cleans (lead.text ++ (t ++ trail.text)) t := by
  have hchars : ∀ c ∈ lead.text ++ (t ++ trail.text), c ∉ "\"'/".toList := by
    intro c hc
    rw [List.mem_append, List.mem_append] at hc
    rcases hc with hc | hc | hc
    · exact not_quote_of_mem_chars (mem_chars_of_mem_gap lead c hc)
    · exact not_quote_of_mem_chars (ht c hc)
    · exact not_quote_of_mem_chars (mem_chars_of_mem_gap trail c hc)
  have hend' : ';' ∉ lead.text ++ (t ++ trail.text) := by
    rw [List.mem_append, List.mem_append, not_or, not_or]
    exact ⟨not_mem_gap (by decide) lead, hend, not_mem_gap (by decide) trail⟩
  have hwalk : dropTerminators (lead.text ++ (t ++ trail.text)) = lead.text ++ (t ++ trail.text) :=
    Terminators.walk_of_not_mem ⟨rfl, rfl⟩ hchars hend'
  refine ⟨⟨[], by rw [hwalk, List.append_nil]⟩, ?_⟩
  rw [hwalk, trim_of_ends (isBlank_of_mem_gap lead) (isBlank_of_mem_gap trail) hends.1 hends.2]

/-- A statement with its semicolon. -/
theorem cleans_terminated {ts : List Token} (lead trail : Gap)
    (hspaced : isSpaced ts = true) (hfor : lacks "for" ts = true) (hmarks : marksAll chars.elem ts = true)
    (hend : marksAll (· != ';') ts = true)
    (hends : (spell ts).head?.any isBlank = false ∧ (spell ts).getLast?.any isBlank = false) :
    Cleans (lead.text ++ (spell ts ++ ';' :: trail.text)) (spell ts) := by
  have hgap : ∀ c ∈ lead.text, isWordChar c = false := fun c hc => isWordChar_of_isGap (lead.isGap c hc)
  have hlead : isSpaced (marks lead.text ++ ts) = true := by rw [isSpaced_marks_append hgap, hspaced]
  have hlacks : Terminators.LacksFor none (spell (marks lead.text ++ ts)) (';' :: trail.text) :=
    Terminators.lacksFor_spell rfl hlead (by rw [lacks_append, lacks_marks, hfor]; rfl)
  have hchars : ∀ c ∈ lead.text ++ spell ts, c ∉ "\"'/".toList := by
    intro c hc
    rcases List.mem_append.mp hc with hc | hc
    · exact not_quote_of_mem_chars (mem_chars_of_mem_gap lead c hc)
    · exact not_quote_of_mem_chars (mem_chars_of_marksAll hspaced hmarks c hc)
  have hend' : ';' ∉ lead.text ++ spell ts := by
    rw [List.mem_append, not_or]
    exact ⟨not_mem_gap (by decide) lead, not_mem_spell (by decide) hspaced hend⟩
  rw [spell_append, spell_marks] at hlacks
  -- nothing before the semicolon is a string, a comment or the word `for`, so the walk reaches it in code
  have hwalk : dropTerminators (lead.text ++ (spell ts ++ ';' :: trail.text)) = lead.text ++ spell ts := by
    rw [← List.append_assoc]
    exact Terminators.walk_terminated ⟨rfl, rfl⟩ rfl hchars hend' hlacks (isBlank_of_mem_gap trail)
  have htrim : Text.trim (lead.text ++ (spell ts ++ [])) = spell ts :=
    trim_of_ends (isBlank_of_mem_gap lead) (fun _ h => absurd h List.not_mem_nil) hends.1 hends.2
  rw [List.append_nil] at htrim
  refine ⟨?_, by rw [hwalk, htrim]⟩
  rw [hwalk, ← List.append_assoc]
  exact List.prefix_append _ _

/-- The header of a counting loop keeps its semicolons. -/
theorem cleans_header {ts : List Token} (lead trail : Gap)
    (hspaced : isSpaced (.mark ' ' :: ts) = true) (hmarks : marksAll chars.elem ts = true)
    (hbrace : marksAll (· != '{') ts = true) :
    Cleans (lead.text ++ ('f' :: 'o' :: 'r' :: ' ' :: (spell ts ++ ['{']) ++ trail.text))
      ('f' :: 'o' :: 'r' :: ' ' :: (spell ts ++ ['{'])) := by
  have hts := isSpaced_of_cons hspaced
  have hlead : (lastOf none lead.text).any isNameChar = false := by
    by_cases hg : lead.text = []
    · rw [hg]
      rfl
    · obtain ⟨c, hc, hlast⟩ := lastOf_mem none hg
      rw [hlast]
      rcases eq_of_isGap (lead.isGap c hc) with rfl | rfl <;> decide
  have hkeyword : startsKeyword (lastOf none lead.text)
      ('f' :: ('o' :: 'r' :: ' ' :: spell ts ++ '{' :: trail.text)) "for" = true := by
    rw [startsKeyword, hlead]
    rfl
  have hchars : ∀ c ∈ 'o' :: 'r' :: ' ' :: spell ts, c ∉ "\"'/".toList := by
    simp only [List.forall_mem_cons]
    refine ⟨by decide, by decide, by decide, fun c hc => ?_⟩
    exact not_quote_of_mem_chars (mem_chars_of_marksAll hts hmarks c hc)
  have hbrace' : '{' ∉ 'o' :: 'r' :: ' ' :: spell ts := by
    have h := not_mem_spell (c := '{') (by decide) hts hbrace
    simpa using h
  -- from the keyword to the brace the walk is in a header and drops nothing
  have hwalk : dropTerminators (lead.text ++ ('f' :: 'o' :: 'r' :: ' ' :: (spell ts ++ ['{']) ++ trail.text)) =
      lead.text ++ ('f' :: 'o' :: 'r' :: ' ' :: (spell ts ++ ['{']) ++ trail.text) := by
    have htext : 'f' :: 'o' :: 'r' :: ' ' :: (spell ts ++ ['{']) ++ trail.text =
        'f' :: ('o' :: 'r' :: ' ' :: spell ts ++ '{' :: trail.text) := by simp
    rw [dropTerminators, htext, Terminators.walk_gap ⟨rfl, rfl⟩ lead.isGap,
      Terminators.walk_cons ⟨rfl, rfl⟩ (by decide) (fun h => absurd h (by decide)),
      Terminators.walk_header ⟨rfl, rfl⟩ _ hchars hbrace'
        (fun c hc => not_quote_of_mem_chars (mem_chars_of_mem_gap trail c hc))
        (not_mem_gap (by decide) trail)]
    · simp [Terminators.push]
    · rw [Terminators.headerAfter, if_pos ⟨rfl, hkeyword⟩]
  refine ⟨⟨[], by rw [hwalk, List.append_nil]⟩, ?_⟩
  rw [hwalk, trim_of_ends (isBlank_of_mem_gap lead) (isBlank_of_mem_gap trail) rfl]
  simp [List.getLast?_cons]
  decide

variable {lead trail : Gap} {l : Line}

theorem cleansAll_of_not_mem {t g : Text} (h : '\n' ∉ t) (hclean : Cleans (lead.text ++ (t ++ trail.text)) g) :
    CleansAll (lead.text ++ (t ++ trail.text)) [g] := by
  have hrow : '\n' ∉ lead.text ++ (t ++ trail.text) := by
    rw [List.mem_append, List.mem_append, not_or, not_or]
    exact ⟨not_mem_gap (by decide) lead, h, not_mem_gap (by decide) trail⟩
  rw [CleansAll, Text.pieces_of_not_mem hrow]
  exact .cons hclean .nil

theorem cleansAll_kept (hgo : l.go = [l.form 9]) (hnewline : marksAll (· != '\n') (l.tokens 9) = true)
    (hend : marksAll (· != ';') (l.tokens 9) = true) :
    CleansAll (lead.text ++ (l.form 9 ++ trail.text)) l.go := by
  have hends := l.go_ends (l.form 9) (by rw [hgo]; exact List.mem_singleton_self _)
  rw [hgo]
  exact cleansAll_of_not_mem (not_mem_form (by decide) hnewline)
    (cleans_plain lead trail (l.mem_chars 9) (not_mem_form (by decide) hend) hends)

theorem cleansAll_terminated (ts : List Token) (htokens : l.tokens 9 = ts ++ [.mark ';'])
    (hgo : l.go = [spell ts]) (hfor : lacks "for" ts = true) (hnewline : marksAll (· != '\n') ts = true)
    (hend : marksAll (· != ';') ts = true) (hspaced : isSpaced ts = true) (hmarks : marksAll chars.elem ts = true) :
    CleansAll (lead.text ++ (l.form 9 ++ trail.text)) l.go := by
  have hends := l.go_ends (spell ts) (by rw [hgo]; exact List.mem_singleton_self _)
  have hform : l.form 9 = spell ts ++ [';'] := by
    rw [← l.spell_tokens, htokens, spell_append]
    rfl
  have hnewline' : '\n' ∉ spell ts ++ [';'] := by
    rw [List.mem_append, not_or]
    exact ⟨not_mem_spell (by decide) hspaced hnewline, by decide⟩
  have hclean := cleans_terminated lead trail hspaced hfor hmarks hend hends
  rw [← List.singleton_append, ← List.append_assoc (spell ts)] at hclean
  rw [hform, hgo]
  exact cleansAll_of_not_mem hnewline' hclean

theorem cleansAll_count (type name start : Name) (c : Condition) (next : Name) :
    CleansAll (lead.text ++ ((opening (.count type name start c next)).form 9 ++ trail.text))
      (opening (.count type name start c next)).go := by
  let ts : List Token := .name name :: .mark ' ' :: .mark ':' :: .mark '=' :: .mark ' ' :: .name start
    :: .mark ';' :: .mark ' ' :: conditionTokens c [.mark ';', .mark ' ', .name next, .mark '+', .mark '+',
      .mark ' ']
  have htext : (opening (.count type name start c next)).form 9 =
      'f' :: 'o' :: 'r' :: ' ' :: (spell ts ++ ['{']) := by
    rw [form_nine]
    unfold recast Header.go
    simp [ts, spell_conditionTokens, Token.text]
  have hgo : (opening (.count type name start c next)).go = [(opening (.count type name start c next)).form 9] := by
    rw [form_nine]
    unfold go recast
    rfl
  have hnewline : '\n' ∉ (opening (.count type name start c next)).form 9 := by
    apply not_mem_form (by decide)
    simp [tokens, turn, recastTokens, marksAll_conditionTokens (p := (· != '\n')) (by decide)]
  have hspaced : isSpaced (.mark ' ' :: ts) = true := by
    simp only [ts, isSpaced, startsMark, isSpaced_conditionTokens]
    decide
  have hmarks : marksAll chars.elem ts = true := by
    simp only [ts, marksAll_name, marksAll_mark, marksAll_nil, marksAll_conditionTokens (p := chars.elem) (by decide)]
    decide
  have hbrace : marksAll (· != '{') ts = true := by
    simp [ts, marksAll_conditionTokens (p := (· != '{')) (by decide)]
  rw [hgo]
  apply cleansAll_of_not_mem hnewline
  rw [htext]
  exact cleans_header lead trail hspaced hmarks hbrace

theorem cleansAll_closingWhile (c : Condition) :
    CleansAll (lead.text ++ ((closingWhile c).form 9 ++ trail.text)) (closingWhile c).go := by
  let ts : List Token := .keyword "if" :: .mark ' ' :: .mark '!' :: .mark '('
    :: conditionTokens c [.mark ')', .mark ' ', .mark '{']
  have hspell : spell ts = "if !(" ++ c.text ++ ") \x7b" := by
    simp [ts, spell_conditionTokens, Token.text]
  have hspaced : isSpaced ts = true := by
    simp only [ts, isSpaced, startsMark, isSpaced_conditionTokens]
    decide
  have hmarks : marksAll chars.elem ts = true := by
    simp only [ts, marksAll_keyword, marksAll_mark, marksAll_nil, marksAll_conditionTokens (p := chars.elem) (by decide)]
    decide
  have hmissing : ∀ d ∈ "\n;".toList, d ∉ spell ts := by
    have hlacks : ∀ d ∈ "\n;".toList, d ∉ nameChars ∧ marksAll (· != d) ts = true := by
      simp [ts, marksAll_conditionTokens (p := (· != '\n')) (by decide),
        marksAll_conditionTokens (p := (· != ';')) (by decide)]
      decide
    exact fun d hd => not_mem_spell (hlacks d hd).1 hspaced (hlacks d hd).2
  -- the end of the loop is a condition of its own, on three lines, before its brace
  have htext : lead.text ++ ((closingWhile c).form 9 ++ trail.text) =
      (lead.text ++ spell ts) ++ '\n' :: ("break".toList ++ '\n' ::
        ("\x7d".toList ++ '\n' :: ("\x7d".toList ++ trail.text))) := by
    rw [form_nine, hspell]
    unfold recast
    simp
  have hnewline : '\n' ∉ lead.text ++ spell ts := by
    rw [List.mem_append, not_or]
    exact ⟨not_mem_gap (by decide) lead, hmissing '\n' (by decide)⟩
  have hlast : '\n' ∉ "\x7d".toList ++ trail.text := by
    rw [List.mem_append, not_or]
    exact ⟨by decide, not_mem_gap (by decide) trail⟩
  have hif : Cleans (lead.text ++ spell ts) (spell ts) := by
    have h := cleans_plain lead .empty (mem_chars_of_marksAll hspaced hmarks)
      (hmissing ';' (by decide)) ((closingWhile c).go_ends _ (by rw [hspell]; exact List.mem_cons_self))
    rwa [show Gap.empty.text = [] from rfl, List.append_nil] at h
  have hgo : (closingWhile c).go = [spell ts, "break".toList, "\x7d".toList, "\x7d".toList] := by
    rw [hspell]
    unfold go
    rfl
  have hplain : ∀ t ∈ ["break".toList, "\x7d".toList], ∀ g : Gap, Cleans (t ++ g.text) t := by
    intro t ht g
    apply cleans_plain .empty g
    · revert t
      decide
    · revert t
      decide
    · revert t
      decide
  rw [CleansAll, htext, Text.pieces_append_cons hnewline, Text.pieces_append_cons (by decide),
    Text.pieces_append_cons (by decide), Text.pieces_of_not_mem hlast, hgo]
  exact .cons hif (.cons (hplain "break".toList (by decide) .empty)
    (.cons (hplain "\x7d".toList (by decide) .empty) (.cons (hplain "\x7d".toList (by decide) trail) .nil)))

theorem cleansAll_form (l : Line) :
    CleansAll (lead.text ++ (l.form 9 ++ trail.text)) l.go := by
  match l with
  | simple (.print _) | simple (.giveBack _) | openingDo | closing | closingElse =>
    apply cleansAll_kept
    · rw [form_nine]
      unfold go recast
      rfl
    · simp [tokens, turn, recastTokens, javaTokens]
    · simp [tokens, turn, recastTokens, javaTokens]
  | simple (.construct _ _ _ arguments) =>
    apply cleansAll_kept
    · rw [form_nine]
      unfold go recast
      rfl
    · simp [tokens, turn, recastTokens, marksAll_argumentTokens (p := (· != '\n')) (by decide)]
    · simp [tokens, turn, recastTokens, marksAll_argumentTokens (p := (· != ';')) (by decide)]
  | opening (.branch c) | opening (.loop c) =>
    apply cleansAll_kept
    · rw [form_nine]
      unfold go recast
      rfl
    · simp [tokens, turn, recastTokens, marksAll_conditionTokens (p := (· != '\n')) (by decide)]
    · simp [tokens, turn, recastTokens, marksAll_conditionTokens (p := (· != ';')) (by decide)]
  | joint gap c =>
    apply cleansAll_kept
    · rw [form_nine]
      unfold go recast
      rfl
    · simp [tokens, turn, recastTokens, marksAll_conditionTokens (p := (· != '\n')) (by decide),
        marksAll_gap (p := (· != '\n')) (by decide)]
    · simp [tokens, turn, recastTokens, marksAll_conditionTokens (p := (· != ';')) (by decide),
        marksAll_gap (p := (· != ';')) (by decide)]
  | opening (.count type name start c next) => exact cleansAll_count type name start c next
  -- these lose their terminator
  | simple (.declare _ name value) =>
    apply cleansAll_terminated [.name name, .mark ' ', .mark ':', .mark '=', .mark ' ', .name value] rfl
    · unfold go Simple.go
      simp [Token.text]
    all_goals rfl
  | simple (.assign name value) =>
    apply cleansAll_terminated [.name name, .mark ' ', .mark '=', .mark ' ', .name value] rfl
    · unfold go Simple.go
      simp [Token.text]
    all_goals rfl
  | simple (.increment name) =>
    apply cleansAll_terminated [.name name, .mark '+', .mark '+'] rfl
    · unfold go Simple.go
      simp [Token.text]
    all_goals rfl
  | closingWhile c => exact cleansAll_closingWhile c

theorem nil_notMem_go (l : Line) : [] ∉ l.go := by
  match l with
  | simple (.declare _ _ _) | simple (.assign _ _) | simple (.increment _) | simple (.print _)
  | simple (.giveBack _) | simple (.construct _ _ _ _) =>
    unfold go Simple.go
    simp
  | opening (.branch _) | opening (.loop _) | opening (.count _ _ _ _ _) | joint _ _ =>
    unfold go Header.go
    simp
  | openingDo | closing | closingElse | closingWhile _ =>
    unfold go
    simp

end Line

/-! ## The lines of a body -/

/-- The Go lines of a row. -/
def Row.go (r : Row) : List Text := r.line?.elim [] Line.go

theorem Row.cleansAll (r : Row) : CleansAll (r.text 9) (r.line?.elim [[]] Line.go) := by
  obtain ⟨lead, line?, trail⟩ := r
  cases line? with
  | none =>
    have hclean : Cleans (lead.text ++ ([] ++ trail.text)) [] :=
      Line.cleans_plain lead trail (fun _ h => absurd h List.not_mem_nil) List.not_mem_nil ⟨rfl, rfl⟩
    exact Line.cleansAll_of_not_mem List.not_mem_nil hclean
  | some l => exact l.cleansAll_form

theorem cleansAll_rowsText : ∀ {rs : List Row}, rs ≠ [] →
    CleansAll (rowsText 9 rs) (rs.flatMap fun r => r.line?.elim [[]] Line.go)
  | [], h => absurd rfl h
  | [r], _ => by
    have h := r.cleansAll
    simpa [rowsText, rowsTail] using h
  | r :: r' :: rs, _ => by
    have ih := cleansAll_rowsText (List.cons_ne_nil r' rs)
    have htext : rowsText 9 (r :: r' :: rs) = r.text 9 ++ '\n' :: rowsText 9 (r' :: rs) := rfl
    rw [CleansAll, htext, Text.pieces_append_sep, List.flatMap_cons]
    exact List.rel_append r.cleansAll ih

theorem dropLastChar_of_not_mem {c : Char} {t : Text} (h : c ∉ t) : Text.dropLastChar c t = t :=
  Text.dropLastChar_of_ne fun hlast => h (List.mem_of_getLast? hlast)

/-- An empty last piece makes no difference to the lines that have something in them. -/
theorem filter_lines : ∀ {qs : List Text}, (∀ q ∈ qs, '\r' ∉ q) →
    ((Text.linesOfPieces qs).map Text.trim).filter (fun line => !line.isEmpty) =
      (qs.map Text.trim).filter fun line => !line.isEmpty
  | [], _ => rfl
  | [q], _ => by
    rw [Text.linesOfPieces]
    split
    · rename_i h
      rw [List.isEmpty_iff.mp h]
      rfl
    · rfl
  | q :: q' :: qs, h => by
    rw [List.forall_mem_cons] at h
    have ih := filter_lines h.2
    rw [Text.linesOfPieces_cons (List.cons_ne_nil q' qs), dropLastChar_of_not_mem h.1, List.map_cons, List.map_cons, List.filter_cons,
      List.filter_cons, ih]

theorem map_trim_of_cleans {ps gs : List Text} (h : List.Forall₂ Cleans ps gs) :
    (ps.map dropTerminators).map Text.trim = gs := by
  induction h with
  | nil => rfl
  | cons hclean _ ih => rw [List.map_cons, List.map_cons, ih, hclean.trim]

theorem start_of_cleans {ps gs : List Text} (h : List.Forall₂ Cleans ps gs) :
    ∀ p ∈ ps, dropTerminators p <+: p := by
  induction h with
  | nil => exact fun _ h => absurd h List.not_mem_nil
  | cons hclean _ ih => exact List.forall_mem_cons.mpr ⟨hclean.start, ih⟩

theorem filter_go (rs : List Row) :
    (rs.flatMap fun r => r.line?.elim [[]] Line.go).filter (fun line => !line.isEmpty) =
      rs.flatMap Row.go := by
  rw [List.filter_flatMap]
  congr 1
  funext r
  obtain ⟨lead, line?, trail⟩ := r
  cases line? with
  | none => rfl
  | some l =>
    rw [Option.elim_some, Row.go, Option.elim_some, List.filter_eq_self]
    intro g hg
    rw [Bool.not_eq_true', List.isEmpty_eq_false_iff]
    rintro rfl
    exact l.nil_notMem_go hg

/-- **The lines of a body**: of the rows that the rules leave, the Go lines are left. -/
theorem bodyLines_stripTerminators {rs : List Row} (hrs : rs ≠ []) :
    bodyLines (stripTerminators (rowsText 9 rs)) =
      (rs.flatMap Row.go).flatMap fun line => (indent ++ line ++ "\n" : Text) := by
  have hclean := cleansAll_rowsText hrs
  have hreturn : '\r' ∉ rowsText 9 rs := by
    apply not_mem_rowsText (by decide) (by decide)
    exact fun l h => absurd (l.mem_chars 9 _ h) (by decide)
  have hpiece : ∀ q ∈ ((rowsText 9 rs).pieces '\n').map dropTerminators, '\n' ∉ q ∧ '\r' ∉ q := by
    intro q hq
    obtain ⟨p, hp, rfl⟩ := List.mem_map.mp hq
    have hstart := start_of_cleans hclean p hp
    obtain ⟨hnewline, hmem⟩ := Text.not_mem_of_mem_pieces p hp
    exact ⟨fun h => hnewline (hstart.subset h), fun h => hreturn (hmem _ (hstart.subset h))⟩
  have hne : ((rowsText 9 rs).pieces '\n').map dropTerminators ≠ [] := by
    rw [Ne, List.map_eq_nil_iff]
    exact Text.pieces_ne_nil _ _
  have hjoin : (stripTerminators (rowsText 9 rs)).pieces '\n' =
      ((rowsText 9 rs).pieces '\n').map dropTerminators :=
    Text.pieces_join hne fun q hq => (hpiece q hq).1
  rw [bodyLines, Text.lines, hjoin, filter_lines fun q hq => (hpiece q hq).2, map_trim_of_cleans hclean,
    filter_go]

end GoDraft
