import GoDraft.Proofs.Body.Respacing
import GoDraft.Proofs.Body.Token
import GoDraft.Proofs.Body.Traces

/-!
# GoDraft — split bodies are tidy

Whether a brace opens a block is told from the text before it, and whether a line ends from the text behind a
place. Splitting changes both, so what it decides at one place has to outlast what it does at the others. Where
a line feed is put it comes between two characters that neither make a name nor begin a comment, so the same
is decided with it and without it. A split body is then tidy: every statement and every block begins on a line of its
own. A tidy text is left as it stands.

* `breaksAfter_of_seam`, `continuesBlock_seam` — decisions and line feeds put behind them;
* `nestOf` — the open braces and parentheses of a text;
* `TidyPlace`, `TidyBefore` — places where nothing is left to split;
* `StatementLines.Tidy.feed`, `StatementLines.Tidy.run` — splitting leaves such places behind;
* `splitStatements_of_tidyBefore` — a tidy text is not split;
* `splitStatements_tidy` — split bodies are tidy, and are not split again.
-/

namespace GoDraft

/-! ## Seams -/

/-- Two characters are read apart: they are not of one name and do not begin a comment. -/
def Apart (a b : Char) : Prop :=
  ¬ (isNameChar a = true ∧ isNameChar b = true) ∧ ¬ (a = '/' ∧ (b = '/' ∨ b = '*'))

/-- Two texts are read apart. -/
def IsSeam (s t : Text) : Prop := ∀ a b, s.getLast? = some a → t.head? = some b → Apart a b

theorem Apart.of_left {a : Char} (hname : isNameChar a = false) (hslash : a ≠ '/') (b : Char) : Apart a b :=
  ⟨fun h => Bool.false_ne_true (hname.symm.trans h.1), fun h => hslash h.1⟩

theorem Apart.of_right {b : Char} (hname : isNameChar b = false) (hslash : b ≠ '/') (hstar : b ≠ '*') (a : Char) :
    Apart a b :=
  ⟨fun h => Bool.false_ne_true (hname.symm.trans h.2), fun h => h.2.elim hslash hstar⟩

theorem IsSeam.of_suffix {s s' t : Text} (h : IsSeam s t) (hs : s' <:+ s) : IsSeam s' t := by
  obtain ⟨r, rfl⟩ := hs
  intro a b ha
  exact h a b (by rw [List.getLast?_append, ha]; rfl)

section Decisions

variable {s gap t : Text}

theorem breaksAfter_gaps (h : ∀ c ∈ gap, isGap c = true) (t : Text) : breaksAfter (gap ++ t) = breaksAfter t := by
  rw [breaksAfter, breaksAfter, List.dropWhile_append_of_pos h]

theorem breaksAfter_cons {c : Char} (h : isGap c = false) (t : Text) : breaksAfter (c :: t) = true ↔
    c ≠ '\n' ∧ c ≠ '\r' ∧ ¬ (c = '/' ∧ (t.head? = some '/' ∨ t.head? = some '*')) := by
  rw [breaksAfter, List.dropWhile_cons_of_neg (by simp [h])]
  have hline : ("//" : String).toList = ['/', '/'] := rfl
  have hblock : ("/*" : String).toList = ['/', '*'] := rfl
  simp only [List.isEmpty_cons, List.head?_cons, hline, hblock, Bool.false_or, Bool.not_eq_true',
    ← Bool.not_eq_true, Bool.or_eq_true, beq_iff_eq, Option.some.injEq, Text.startsWith_pair, not_or, not_and_or,
    and_assoc, ne_eq]
  tauto

/-- Where a line goes on with a line feed put in, it goes on without it. -/
theorem breaksAfter_of_seam (hseam : IsSeam s (gap ++ t)) (h : breaksAfter (s ++ '\n' :: t) = true) :
    breaksAfter (s ++ (gap ++ t)) = true := by
  have hsplit := List.takeWhile_append_dropWhile (p := isGap) (l := s)
  have hgaps : ∀ c ∈ s.takeWhile isGap, isGap c = true := fun c => List.mem_takeWhile_imp
  have hsuffix : s.dropWhile isGap <:+ s := ⟨_, hsplit⟩
  rw [← hsplit, List.append_assoc, breaksAfter_gaps hgaps] at h ⊢
  replace hseam := hseam.of_suffix hsuffix
  cases hrest : s.dropWhile isGap with
  | nil =>
    rw [hrest] at h
    cases h
  | cons a r =>
    have ha : isGap a = false := by
      have hhead := List.head?_dropWhile_not isGap s
      rwa [hrest] at hhead
    rw [hrest] at h hseam
    rw [List.cons_append, breaksAfter_cons ha] at h ⊢
    cases r with
    | cons b r => exact h
    | nil =>
      -- the line feed stands right behind the first character, which may be a slash
      refine ⟨h.1, h.2.1, ?_⟩
      rintro ⟨rfl, hnext | hnext⟩
      · exact (hseam '/' '/' rfl hnext).2 ⟨rfl, .inl rfl⟩
      · exact (hseam '/' '*' rfl hnext).2 ⟨rfl, .inr rfl⟩

theorem continuesBlock_blanks (h : ∀ c ∈ gap, isBlank c = true) (t : Text) :
    continuesBlock (gap ++ t) = continuesBlock t := by
  rw [continuesBlock, continuesBlock, Text.trimStart, List.dropWhile_append_of_pos h]
  rfl

/-- Whether a statement goes on does not hang on a line feed put in. -/
theorem continuesBlock_seam (hgap : ∀ c ∈ gap, isGap c = true) (hseam : IsSeam s (gap ++ t)) :
    continuesBlock (s ++ (gap ++ t)) = continuesBlock (s ++ '\n' :: t) := by
  have hsplit := List.takeWhile_append_dropWhile (p := isBlank) (l := s)
  have hblanks : ∀ c ∈ s.takeWhile isBlank, isBlank c = true := fun c => List.mem_takeWhile_imp
  have hsuffix : s.dropWhile isBlank <:+ s := ⟨_, hsplit⟩
  rw [← hsplit, List.append_assoc, List.append_assoc, continuesBlock_blanks hblanks, continuesBlock_blanks hblanks]
  replace hseam := hseam.of_suffix hsuffix
  cases hrest : s.dropWhile isBlank with
  | nil =>
    have hnewline : ∀ c ∈ ['\n'], isBlank c = true := by decide
    rw [List.nil_append, List.nil_append, continuesBlock_blanks fun c hc => isBlank_of_isGap (hgap c hc)]
    exact (continuesBlock_blanks hnewline t).symm
  | cons a r =>
    have ha : ¬ isBlank a = true := by
      have hhead := List.head?_dropWhile_not isBlank s
      rw [hrest] at hhead
      simpa using hhead
    rw [hrest] at hseam
    -- a keyword is told from the text before the seam alone
    have hwords : ∀ w ∈ blockContinuations, ∀ c ∈ w, isNameChar c = true := by decide
    have hkeyword (w : Text) (hw : w ∈ blockContinuations) :
        startsKeyword none (a :: r ++ (gap ++ t)) w = startsKeyword none (a :: r ++ '\n' :: t) w := by
      rw [startsKeyword_append (hwords w hw) (List.cons_ne_nil a r) fun c d hc hd => (hseam c d hc hd).1,
        startsKeyword_append (hwords w hw) (List.cons_ne_nil a r) ?_]
      rintro c d - ⟨⟩ ⟨-, hd⟩
      exact absurd hd (by decide)
    have hany : blockContinuations.any (startsKeyword none (a :: r ++ (gap ++ t))) =
        blockContinuations.any (startsKeyword none (a :: r ++ '\n' :: t)) := by
      rw [Bool.eq_iff_iff, List.any_eq_true, List.any_eq_true]
      exact exists_congr fun w => and_congr_right fun hw => by rw [hkeyword w hw]
    rw [continuesBlock, continuesBlock, Text.trimStart, Text.trimStart, List.cons_append, List.cons_append,
      List.dropWhile_cons_of_neg ha, List.dropWhile_cons_of_neg ha, ← List.cons_append, ← List.cons_append, hany]
    rfl

end Decisions

/-! ## Braces and parentheses -/

/-- The open braces and parentheses at a place. -/
structure Nest where
  braces : List OpenBrace := []
  parens : Nat := 0

namespace Nest

/-- Whether a brace opens a block behind a text, which is given last character first. -/
def opensBlock (n : Nest) (before : Text) : Bool := n.braces.head?.all (·.isBlock) && GoDraft.opensBlock before

/-- The brace that a closing one belongs to. -/
def innermost (n : Nest) : OpenBrace := n.braces.head?.getD ⟨true, 0⟩

/-- What is open behind a character of code that follows a text, which is given last character first. -/
def after (n : Nest) (before : Text) (c : Char) : Nest :=
  match c with
  | '(' => { n with parens := n.parens + 1 }
  | ')' => { n with parens := n.parens - 1 }
  | '{' => ⟨⟨n.opensBlock before, n.parens⟩ :: n.braces, if n.opensBlock before then 0 else n.parens⟩
  | '}' => ⟨n.braces.tail, if n.innermost.isBlock then n.innermost.parens else n.parens⟩
  | _ => n

theorem after_of_notMem {c : Char} (h : c ∉ "()\x7b\x7d".toList) (n : Nest) (before : Text) : n.after before c = n := by
  unfold after
  split <;> simp_all

end Nest

/-- What is open behind a text with zones, which is given last character first. -/
def nestOf : List (Char × Zone) → Nest
  | [] => {}
  | (c, z) :: before => if z.isCode then (nestOf before).after (before.map Prod.fst) c else nestOf before

theorem nestOf_newline (before : List (Char × Zone)) : nestOf (('\n', .code) :: before) = nestOf before := rfl

theorem nestOf_dropGaps (wr : List (Char × Zone)) : nestOf (wr.dropWhile fun x => isGap x.1) = nestOf wr := by
  induction wr with
  | nil => rfl
  | cons x wr ih =>
    obtain ⟨c, z⟩ := x
    rw [List.dropWhile_cons]
    split
    · rename_i hc
      have hc : c = ' ' ∨ c = '\t' := by simpa [isGap] using hc
      rw [ih, nestOf, Nest.after_of_notMem (by rcases hc with rfl | rfl <;> decide), ite_self]
    · rfl

namespace StatementLines

/-- What is open where a body is put on lines. -/
def nest (st : StatementLines) : Nest := ⟨st.braces, st.parens⟩

/-- What is open is told from what has been written. -/
theorem nest_code (st : StatementLines) (c : Char) (rest : Text) : (st.code c rest).nest = st.nest.after st.out c := by
  unfold code
  split
  · rfl
  · rfl
  · split <;> rfl
  · unfold openBrace Nest.after Nest.opensBlock nest
    dsimp only
    split <;> rfl
  · unfold closeBrace freshLine Nest.after Nest.innermost nest
    dsimp only
    split
    · split <;> rfl
    · rfl
  · exact (Nest.after_of_notMem (by simp_all) _ _).symm

end StatementLines

/-! ## Tidy places -/

/-- Nothing is left to split at a character of code: a statement and the opening of a block end their line, and the
end of a block begins one and ends it, unless the statement goes on. -/
structure TidyPlace (before : List (Char × Zone)) (c : Char) (after : Text) : Prop where
  statement : c = ';' → (nestOf before).parens = 0 → breaksAfter after = false
  opening : c = '{' → (nestOf before).opensBlock (before.map Prod.fst) = true → breaksAfter after = false
  closing : c = '}' → (nestOf before).innermost.isBlock = true →
    lineIsBlank (before.map Prod.fst) = true ∧ (breaksAfter after = true → continuesBlock after = true)

theorem TidyPlace.of_notMem {before : List (Char × Zone)} {c : Char} {after : Text} (h : c ∉ ";\x7b\x7d".toList) :
    TidyPlace before c after where
  statement hc := absurd (hc ▸ by decide) h
  opening hc := absurd (hc ▸ by decide) h
  closing hc := absurd (hc ▸ by decide) h

/-- A tidy place stays one where a line feed is put in behind it. -/
theorem TidyPlace.seam {before : List (Char × Zone)} {c : Char} {s gap t : Text}
    (hgap : ∀ c ∈ gap, isGap c = true) (hseam : IsSeam s (gap ++ t)) (h : TidyPlace before c (s ++ (gap ++ t))) :
    TidyPlace before c (s ++ '\n' :: t) := by
  have hends (hold : breaksAfter (s ++ (gap ++ t)) = false) : breaksAfter (s ++ '\n' :: t) = false := by
    rw [Bool.eq_false_iff]
    intro hnew
    rw [breaksAfter_of_seam hseam hnew] at hold
    cases hold
  exact {
    statement := fun hc hparens => hends (h.statement hc hparens)
    opening := fun hc hblock => hends (h.opening hc hblock)
    closing := fun hc hblock => ⟨(h.closing hc hblock).1, fun hnew => by
      rw [← continuesBlock_seam hgap hseam]
      exact (h.closing hc hblock).2 (breaksAfter_of_seam hseam hnew)⟩ }

/-- The places of a text with zones, given last character first, are tidy where a text follows. -/
def TidyBefore : List (Char × Zone) → Text → Prop
  | [], _ => True
  | (c, z) :: before, after => (z.isCode = true → TidyPlace before c after) ∧ TidyBefore before (c :: after)

namespace TidyBefore

variable {wr later : List (Char × Zone)} {gap t : Text}

theorem of_append (h : TidyBefore (later ++ wr) t) : TidyBefore wr ((later.map Prod.fst).reverse ++ t) := by
  induction later generalizing t with
  | nil => exact h
  | cons x later ih =>
    rw [List.map_cons, List.reverse_cons, List.append_assoc]
    exact ih h.2

theorem newline (h : TidyBefore wr ('\n' :: t)) : TidyBefore (('\n', .code) :: wr) t :=
  ⟨fun _ => .of_notMem (by decide), h⟩

-- The induction is on what has been written; `s` is the part of it between a place and the seam.
/-- A line feed can be put in at a seam. -/
theorem seam (hgap : ∀ c ∈ gap, isGap c = true) : ∀ {wr : List (Char × Zone)} {s : Text},
    IsSeam ((wr.map Prod.fst).reverse ++ s) (gap ++ t) → TidyBefore wr (s ++ (gap ++ t)) →
      TidyBefore wr (s ++ '\n' :: t)
  | [], _, _, _ => trivial
  | (c, z) :: wr, s, hseam, h => by
    refine ⟨fun hz => (h.1 hz).seam hgap (hseam.of_suffix (List.suffix_append _ s)), ?_⟩
    rw [List.map_cons, List.reverse_cons, List.append_assoc, List.singleton_append] at hseam
    have hrest := seam hgap hseam h.2
    exact hrest

end TidyBefore

/-! ## Splitting -/

namespace StatementLines

/-- When a line is to end behind a character of code. -/
theorem pending_code {st : StatementLines} (hp : st.pending = false) (c : Char) (rest : Text) :
    (st.code c rest).pending = true ↔ breaksAfter rest = true ∧
      (c = ';' ∧ st.parens = 0 ∨ c = '{' ∧ st.nest.opensBlock st.out = true ∨
        c = '}' ∧ st.endsBlock = true ∧ continuesBlock rest = false) := by
  unfold code
  split
  · simp [hp]
  · simp [hp]
  · split <;> simp_all
  · unfold openBrace Nest.opensBlock nest
    dsimp only
    split <;> simp_all
  · rw [closeBrace_eq]
    split <;> simp_all
  · simp_all

/-- The text that is going to follow what has been written. -/
def ahead (st : StatementLines) (rest : Text) : Text := if st.pending then '\n' :: rest.dropWhile isGap else rest

/-- What has been written is tidy, whatever of it is still to be settled when `rest` is read. -/
structure Tidy (st : StatementLines) (wr : List (Char × Zone)) (rest : Text) : Prop where
  out : wr.map Prod.fst = st.out
  nest : nestOf wr = st.nest
  pending : st.pending = true → breaksAfter rest = true
  places : TidyBefore wr (st.ahead rest)

variable {st : StatementLines} {wr : List (Char × Zone)} {c : Char} {rest : Text}

theorem ahead_of_not_pending (h : st.pending = false) (rest : Text) : st.ahead rest = rest := by
  rw [ahead, h, if_neg Bool.false_ne_true]

theorem ahead_of_pending (h : st.pending = true) (rest : Text) : st.ahead rest = '\n' :: rest.dropWhile isGap := by
  rw [ahead, if_pos h]

theorem ahead_push (st : StatementLines) (c : Char) (rest : Text) : (st.push c).ahead rest = st.ahead rest := rfl

theorem Tidy.settle (h : st.Tidy wr (c :: rest)) (hc : ¬ (st.pending && isGap c) = true) :
    (st.settle c).pending = false ∧ (st.settle c).Tidy (st.zonedSettle c wr) (c :: rest) := by
  unfold StatementLines.settle zonedSettle
  cases hp : st.pending with
  | false => exact ⟨hp, h⟩
  | true =>
    have hgap : isGap c = false := by simpa [hp] using hc
    obtain ⟨hnewline, hreturn, -⟩ := (breaksAfter_cons hgap rest).1 (h.pending hp)
    have hends : ¬ (c == '\n' || c == '\r') = true := by simp [hnewline, hreturn]
    have hplaces := h.places
    rw [ahead_of_pending hp, List.dropWhile_cons_of_neg (by simp [hgap])] at hplaces
    rw [Bool.not_true, if_neg Bool.false_ne_true, if_neg Bool.false_ne_true, if_neg hends, if_neg hends]
    refine ⟨rfl, ?_, ?_, nofun, ?_⟩
    · rw [List.map_cons, h.out]
    · rw [nestOf_newline, h.nest]
      rfl
    · exact hplaces.newline

/-- A line feed takes the place of the spaces and tabs before a brace. -/
theorem tidyBefore_zonedFreshLine (h : TidyBefore wr ('}' :: rest)) : TidyBefore (zonedFreshLine wr) ('}' :: rest) := by
  unfold zonedFreshLine
  split
  · exact h
  · have hsplit := List.takeWhile_append_dropWhile (p := fun x : Char × Zone => isGap x.1) (l := wr)
    have hgap : ∀ c ∈ ((wr.takeWhile fun x => isGap x.1).map Prod.fst).reverse, isGap c = true := by
      intro c hc
      obtain ⟨x, hx, rfl⟩ := List.mem_map.1 (List.mem_reverse.1 hc)
      exact List.mem_takeWhile_imp (p := fun x : Char × Zone => isGap x.1) hx
    rw [← hsplit] at h
    have hafter := h.of_append
    generalize ((wr.takeWhile fun x => isGap x.1).map Prod.fst).reverse = gap at hgap hafter
    refine (TidyBefore.seam (s := []) hgap ?_ hafter).newline
    intro a b _ hb
    -- what follows the seam is a space, a tab or the brace
    cases gap with
    | nil =>
      obtain rfl : '}' = b := by simpa using hb
      exact .of_right (by decide) (by decide) (by decide) a
    | cons d gap =>
      obtain rfl : d = b := by simpa using hb
      have hd : d = ' ' ∨ d = '\t' := by simpa [isGap] using hgap d List.mem_cons_self
      rcases hd with rfl | rfl <;> exact .of_right (by decide) (by decide) (by decide) a

theorem nestOf_zonedFreshLine (wr : List (Char × Zone)) : nestOf (zonedFreshLine wr) = nestOf wr := by
  unfold zonedFreshLine
  split
  · rfl
  · rw [nestOf_newline, nestOf_dropGaps]

theorem lineIsBlank_zonedFreshLine (wr : List (Char × Zone)) :
    lineIsBlank ((zonedFreshLine wr).map Prod.fst) = true := by
  unfold zonedFreshLine
  split
  · assumption
  · rfl

theorem map_zonedFreshLine (h : wr.map Prod.fst = st.out) : (zonedFreshLine wr).map Prod.fst = st.freshLine.out := by
  unfold zonedFreshLine freshLine
  rw [h]
  split
  · exact h
  · rw [← h, List.dropWhile_map]
    rfl

section Code

variable (st c)

theorem map_zonedCode (h : wr.map Prod.fst = st.out) (rest : Text) :
    (st.zonedCode c wr).map Prod.fst = (st.code c rest).out := by
  rw [out_code]
  unfold zonedCode
  split
  · exact map_zonedFreshLine h
  · exact h

theorem nestOf_zonedCode (wr : List (Char × Zone)) : nestOf (st.zonedCode c wr) = nestOf wr := by
  unfold zonedCode
  split
  · exact nestOf_zonedFreshLine wr
  · rfl

theorem tidyBefore_zonedCode (h : TidyBefore wr (c :: rest)) : TidyBefore (st.zonedCode c wr) (c :: rest) := by
  unfold zonedCode
  split
  · rename_i hends
    rw [hends.1] at h ⊢
    exact tidyBefore_zonedFreshLine h
  · exact h

/-- A line feed that is going to follow the character comes at a seam. -/
theorem tidyBefore_cons_ahead (hp : st.pending = false) (h : TidyBefore wr (c :: rest)) :
    TidyBefore wr (c :: (st.code c rest).ahead rest) := by
  cases hpending : (st.code c rest).pending with
  | false => rwa [ahead_of_not_pending hpending]
  | true =>
    obtain ⟨-, hc⟩ := (pending_code hp c rest).1 hpending
    have hname : isNameChar c = false ∧ c ≠ '/' := by
      rcases hc with ⟨rfl, -⟩ | ⟨rfl, -⟩ | ⟨rfl, -⟩ <;> decide
    have hsplit := List.takeWhile_append_dropWhile (p := isGap) (l := rest)
    rw [ahead_of_pending hpending]
    rw [← hsplit] at h
    refine TidyBefore.seam (s := [c]) (fun d => List.mem_takeWhile_imp) ?_ h
    intro a b ha _
    obtain rfl : c = a := by simpa using ha
    exact .of_left hname.1 hname.2 b

end Code

/-- Taking a character of code leaves a tidy place. -/
theorem Tidy.place (h : st.Tidy wr (c :: rest)) (hp : st.pending = false) :
    TidyPlace (st.zonedCode c wr) c ((st.code c rest).ahead rest) := by
  have hnest : nestOf (st.zonedCode c wr) = st.nest := (nestOf_zonedCode st c wr).trans h.nest
  have hblank (hc : c = '}') (hblock : (nestOf (st.zonedCode c wr)).innermost.isBlock = true) :
      lineIsBlank ((st.zonedCode c wr).map Prod.fst) = true := by
    rw [hnest] at hblock
    rw [zonedCode, if_pos ⟨hc, hblock⟩]
    exact lineIsBlank_zonedFreshLine wr
  cases hpending : (st.code c rest).pending with
  | true =>
    rw [ahead_of_pending hpending]
    refine ⟨fun _ _ => rfl, fun _ _ => rfl, fun hc hblock => ⟨hblank hc hblock, ?_⟩⟩
    exact fun hbreaks => absurd hbreaks Bool.false_ne_true
  | false =>
    -- no line feed is due: in none of the three cases where one would be has the line to be broken
    have hstays := mt (pending_code hp c rest).2 (by rw [hpending]; exact Bool.false_ne_true)
    rw [ahead_of_not_pending hpending]
    refine ⟨fun hc hparens => ?_, fun hc hblock => ?_, fun hc hblock => ⟨hblank hc hblock, fun hbreaks => ?_⟩⟩
    · rw [hnest] at hparens
      rw [Bool.eq_false_iff]
      exact fun hbreaks => hstays ⟨hbreaks, .inl ⟨hc, hparens⟩⟩
    · have hother : ¬ (c = '}' ∧ st.endsBlock = true) := fun h => absurd (hc.symm.trans h.1) (by decide)
      rw [hnest, map_zonedCode st c h.out rest, out_code, if_neg hother] at hblock
      rw [Bool.eq_false_iff]
      exact fun hbreaks => hstays ⟨hbreaks, .inr (.inl ⟨hc, hblock⟩)⟩
    · rw [hnest] at hblock
      by_contra hends
      exact hstays ⟨hbreaks, .inr (.inr ⟨hc, hblock, Bool.eq_false_iff.2 hends⟩)⟩

theorem Tidy.code (h : st.Tidy wr (c :: rest)) (hp : st.pending = false) :
    ((st.code c rest).push c).Tidy ((c, .code) :: st.zonedCode c wr) rest where
  out := by rw [List.map_cons, map_zonedCode st c h.out rest, push]
  nest := by
    have hnest : nestOf ((c, .code) :: st.zonedCode c wr) = st.nest.after (st.code c rest).out c := by
      rw [← map_zonedCode st c h.out rest, ← h.nest, ← nestOf_zonedCode st c wr]
      rfl
    rw [hnest]
    refine Eq.trans ?_ (nest_code st c rest).symm
    rw [out_code]
    split
    · rename_i hends
      rw [hends.1]
      rfl
    · rfl
  pending hpending := ((pending_code hp c rest).1 hpending).1
  places := by
    have hplaces := h.places
    rw [ahead_of_not_pending hp] at hplaces
    exact ⟨fun _ => h.place hp, tidyBefore_cons_ahead st c hp (tidyBefore_zonedCode st c hplaces)⟩

/-- **One character**: what has been written stays tidy. -/
theorem Tidy.feed (h : st.Tidy wr (c :: rest)) (z : Zone) (depth : Nat) {seen : List (Seen Char)}
    (hseen : seen.map Seen.letter = rest) : (st.feed ⟨c, z, depth⟩ seen).Tidy (st.zonedFeed (c, z) wr) rest := by
  unfold StatementLines.feed zonedFeed
  dsimp only
  split
  · rename_i hskip
    rw [Bool.and_eq_true] at hskip
    -- a blank behind a line that was ended is dropped, and what is ahead stays the same
    have hplaces := h.places
    have hpending := h.pending hskip.1
    rw [ahead_of_pending hskip.1, List.dropWhile_cons_of_pos hskip.2] at hplaces
    rw [breaksAfter, List.dropWhile_cons_of_pos hskip.2] at hpending
    exact ⟨h.out, h.nest, fun _ => hpending, by rwa [ahead_of_pending hskip.1]⟩
  · rename_i hskip
    obtain ⟨hp, hsettle⟩ := h.settle hskip
    cases hz : z.isCode with
    | true =>
      obtain rfl := Zone.eq_code_of_isCode hz
      have hcode := hsettle.code hp
      rw [zonedCode, endsBlock_settle, ← zonedCode] at hcode
      rwa [if_pos rfl, if_pos rfl, hseen]
    | false =>
      -- outside code nothing is ended or begun
      have hplaces := hsettle.places
      rw [ahead_of_not_pending hp] at hplaces
      rw [if_neg Bool.false_ne_true, if_neg Bool.false_ne_true]
      refine ⟨?_, ?_, fun hpending => absurd (hp.symm.trans hpending) Bool.false_ne_true, ?_⟩
      · rw [List.map_cons, hsettle.out, push]
      · rw [nestOf, hz, if_neg Bool.false_ne_true, hsettle.nest]
        rfl
      · rw [ahead_push, ahead_of_not_pending hp]
        exact ⟨fun hcode => absurd (hz.symm.trans hcode) Bool.false_ne_true, hplaces⟩

/-- **All characters**: what has been written at the end is tidy. -/
theorem Tidy.run {body : Text} {s : Scanner} (h : st.Tidy wr body) :
    (st.run (s.run body)).Tidy (st.zonedRun wr (s.run body)) [] := by
  induction body generalizing st wr s with
  | nil => exact h
  | cons c rest ih => exact ih (h.feed _ _ (Scanner.map_letter_run _ rest))

/-- At the end of a text no line is still to end. -/
theorem Tidy.tidyBefore (h : st.Tidy wr []) : TidyBefore wr [] := by
  have hp : st.pending = false := Bool.eq_false_iff.2 fun hpending => nomatch h.pending hpending
  have hplaces := h.places
  rwa [ahead_of_not_pending hp] at hplaces

/-- At a tidy place nothing is changed. -/
theorem Tidy.feed_of_tidyPlace (h : st.Tidy wr (c :: rest)) (hp : st.pending = false) {z : Zone} (depth : Nat)
    {seen : List (Seen Char)} (hseen : seen.map Seen.letter = rest) (hplace : z.isCode = true → TidyPlace wr c rest) :
    (st.feed ⟨c, z, depth⟩ seen).pending = false ∧ st.zonedFeed (c, z) wr = (c, z) :: wr := by
  have hsettle : st.settle c = st := by rw [StatementLines.settle, hp]; rfl
  have hzoned : st.zonedSettle c wr = wr := by rw [zonedSettle, hp]; rfl
  have hskip : ¬ (st.pending && isGap c) = true := by simp [hp]
  unfold StatementLines.feed zonedFeed
  dsimp only
  rw [if_neg hskip, if_neg hskip, hsettle, hzoned, hseen]
  cases hz : z.isCode with
  | false => exact ⟨hp, rfl⟩
  | true =>
    have hplace := hplace hz
    rw [if_pos rfl, if_pos rfl]
    constructor
    · -- each of the three reasons for a line feed is what the tidy place rules out
      refine Bool.eq_false_iff.2 fun hpending => ?_
      obtain ⟨hbreaks, ⟨hc, hparens⟩ | ⟨hc, hblock⟩ | ⟨hc, hblock, hcontinues⟩⟩ := (pending_code hp c rest).1 hpending
      · have hends := hplace.statement hc (by rw [h.nest]; exact hparens)
        exact absurd (hends.symm.trans hbreaks) Bool.false_ne_true
      · have hends := hplace.opening hc (by rw [h.nest, h.out]; exact hblock)
        exact absurd (hends.symm.trans hbreaks) Bool.false_ne_true
      · have hgoes := (hplace.closing hc (by rw [h.nest]; exact hblock)).2 hbreaks
        exact absurd (hcontinues.symm.trans hgoes) Bool.false_ne_true
    · unfold zonedCode zonedFreshLine
      split
      · rename_i hends
        rw [if_pos (hplace.closing hends.1 (by rw [h.nest]; exact hends.2)).1]
      · rfl

/-- A tidy text is written as it is read. -/
theorem Tidy.run_of_tidyBefore {body : Text} {s : Scanner} (h : st.Tidy wr body) (hp : st.pending = false)
    (hbody : TidyBefore ((s.zones body).reverse ++ wr) []) :
    st.zonedRun wr (s.run body) = (s.zones body).reverse ++ wr := by
  induction body generalizing st wr s with
  | nil => rfl
  | cons c rest ih =>
    have hseen := Scanner.map_letter_run (s.read c rest).2 rest
    rw [Scanner.zones_cons, List.reverse_cons, List.append_assoc, List.singleton_append] at hbody ⊢
    have hplaces : TidyBefore ((c, (s.read c rest).1) :: wr) rest := by
      have hrest := hbody.of_append
      rwa [List.map_reverse, List.reverse_reverse, List.append_nil, Scanner.map_fst_zones] at hrest
    obtain ⟨hp', hfeed⟩ := h.feed_of_tidyPlace hp s.depth hseen hplaces.1
    have h' := h.feed (s.read c rest).1 s.depth hseen
    rw [hfeed] at h'
    rw [← ih h' hp' hbody, ← hfeed]
    rfl

end StatementLines

/-! ## Split bodies -/

theorem tidy_start (body : Text) : ({} : StatementLines).Tidy [] body := ⟨rfl, rfl, nofun, trivial⟩

theorem tidy_splitZones (body : Text) : (({} : StatementLines).run (scan body)).Tidy (splitZones body) [] :=
  (tidy_start body).run

/-- **A tidy text is not split**. -/
theorem splitStatements_of_tidyBefore {t : Text} (h : TidyBefore (zoned t).reverse []) : splitStatements t = t := by
  have hcode : Scanner.start.InCode := ⟨rfl, rfl⟩
  have hzones := Scanner.zones_eq_zoned hcode t
  rw [← hzones, ← List.append_nil (Scanner.start.zones t).reverse] at h
  have hrun : splitZones t = (Scanner.start.zones t).reverse ++ [] := (tidy_start t).run_of_tidyBefore rfl h
  rw [← map_fst_zoned (splitStatements t), zoned_splitStatements, hrun, List.append_nil, List.reverse_reverse, hzones,
    map_fst_zoned]

/-- Before the next line nothing but spaces, tabs and comments follows. -/
def AtLineEnd (after : Text) : Prop :=
  ∃ gap rest : Text, after = gap ++ rest ∧ (∀ c ∈ gap, c = ' ' ∨ c = '\t') ∧
    (rest = [] ∨ rest.head? = some '\n' ∨ rest.head? = some '\r' ∨
      ("//" : Text) <+: rest ∨ ("/*" : Text) <+: rest)

theorem atLineEnd_of_breaksAfter {after : Text} (h : breaksAfter after = false) : AtLineEnd after := by
  refine ⟨after.takeWhile isGap, after.dropWhile isGap, List.takeWhile_append_dropWhile.symm, fun c hc => ?_, ?_⟩
  · simpa [isGap] using List.mem_takeWhile_imp hc
  · simpa only [breaksAfter, Text.startsWith, Bool.not_eq_false', Bool.or_eq_true, List.isEmpty_iff, beq_iff_eq,
      List.isPrefixOf_iff_prefix, or_assoc] using h

/-- Since the last line feed nothing but blanks has been written. -/
def AtLineStart (before : Text) : Prop :=
  ∃ earlier indent : Text, before = earlier ++ indent ∧ (earlier = [] ∨ earlier.getLast? = some '\n') ∧
    ∀ c ∈ indent, isPlainBlank c = true

theorem atLineStart_of_lineIsBlank {before : Text} (h : lineIsBlank before.reverse = true) : AtLineStart before := by
  have hsplit := List.takeWhile_append_dropWhile (p := (· != '\n')) (l := before.reverse)
  refine ⟨(before.reverse.dropWhile (· != '\n')).reverse, (before.reverse.takeWhile (· != '\n')).reverse, ?_, ?_, ?_⟩
  · rw [← List.reverse_append, hsplit, List.reverse_reverse]
  · rw [List.reverse_eq_nil_iff, List.getLast?_reverse]
    have hhead := List.head?_dropWhile_not (· != '\n') before.reverse
    cases hrest : before.reverse.dropWhile (· != '\n') with
    | nil => exact .inl rfl
    | cons c rest =>
      rw [hrest] at hhead
      exact .inr (congrArg some (by simpa using hhead))
  · intro c hc
    exact List.all_eq_true.1 h c (List.mem_reverse.1 hc)

/-- **Split bodies are tidy, and are not split again**. Behind the semicolon of a statement and behind the brace that
opens a block a split body has nothing but a comment on the line, and the brace that closes a block begins one. What is
open at its end is what splitting has found to be open. -/
theorem splitStatements_tidy (body : Text) :
    (∀ before c after, zoned (splitStatements body) = before ++ (c, Zone.code) :: after →
      (c = ';' → (nestOf before.reverse).parens = 0 → AtLineEnd (after.map Prod.fst)) ∧
      (c = '{' → (nestOf before.reverse).opensBlock (before.map Prod.fst).reverse = true →
        AtLineEnd (after.map Prod.fst)) ∧
      (c = '}' → (nestOf before.reverse).innermost.isBlock = true → AtLineStart (before.map Prod.fst))) ∧
    nestOf (zoned (splitStatements body)).reverse = (({} : StatementLines).run (scan body)).nest ∧
    splitStatements (splitStatements body) = splitStatements body := by
  have htidy := tidy_splitZones body
  have hzones : (zoned (splitStatements body)).reverse = splitZones body := by
    rw [zoned_splitStatements, List.reverse_reverse]
  refine ⟨fun before c after hsplit => ?_, ?_, ?_⟩
  · have hplaces := htidy.tidyBefore
    rw [← hzones, hsplit, List.reverse_append, List.reverse_cons, List.append_assoc, List.singleton_append] at hplaces
    have hplace := hplaces.of_append.1 rfl
    rw [List.map_reverse, List.reverse_reverse, List.append_nil] at hplace
    refine ⟨fun hc hparens => ?_, fun hc hblock => ?_, fun hc hblock => ?_⟩
    · exact atLineEnd_of_breaksAfter (hplace.statement hc hparens)
    · exact atLineEnd_of_breaksAfter (hplace.opening hc (by rwa [List.map_reverse]))
    · have hblank := (hplace.closing hc hblock).1
      rw [List.map_reverse] at hblank
      exact atLineStart_of_lineIsBlank hblank
  · rw [hzones, htidy.nest]
  · refine splitStatements_of_tidyBefore ?_
    rw [hzones]
    exact htidy.tidyBefore

/-- A block with an initializer and a loop, whose header keeps its semicolons. -/
theorem splitStatements_tidy_loop :
    let body : Text := "if (a) \x7b b = new int[] \x7b1\x7d; for (;;) c(); \x7d d();"
    let split : Text := "if (a) \x7b\nb = new int[] \x7b1\x7d;\nfor (;;) c();\n\x7d\nd();"
    splitStatements body = split ∧ splitStatements split = split ∧
      AtLineEnd (split.drop 8) ∧ AtLineEnd (split.drop 27) ∧ AtLineStart (split.take 42) := by
  intro body split
  let seen : List (Char × Zone) := (scan split).map fun x => (x.letter, x.zone)
  have hsplit : splitStatements body = split := by decide +kernel
  have hletters : seen.map Prod.fst = split := by decide +kernel
  have hzoned : zoned (splitStatements body) = seen := by rw [hsplit, ← map_letter_zone_scan]
  obtain ⟨hplaces, -, hagain⟩ := splitStatements_tidy body
  rw [hzoned] at hplaces
  have hopening := (hplaces (seen.take 7) '{' (seen.drop 8) (by decide +kernel)).2.1 rfl (by decide +kernel)
  have hstatement := (hplaces (seen.take 26) ';' (seen.drop 27) (by decide +kernel)).1 rfl (by decide +kernel)
  have hclosing := (hplaces (seen.take 42) '}' (seen.drop 43) (by decide +kernel)).2.2 rfl (by decide +kernel)
  rw [List.map_drop, hletters] at hopening hstatement
  rw [List.map_take, hletters] at hclosing
  exact ⟨hsplit, hsplit ▸ hagain, hopening, hstatement, hclosing⟩

end GoDraft
