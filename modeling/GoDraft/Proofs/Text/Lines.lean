import GoDraft.Text.Blank

/-!
# GoDraft — cutting and joining undo each other

* `Text.join_pieces` — the pieces of a text, joined, give the text;
* `Text.pieces_join` — texts without the separator, joined, fall into themselves;
* `Text.line_induction` — induction from line to line;
* `Text.lines_append_newline` — the first line of a text;
* `Text.words_append_blank` — the first word of a text.
-/

namespace GoDraft.Text

variable {sep : Char}

theorem pieces_ne_nil (sep : Char) (t : Text) : t.pieces sep ≠ [] := by
  cases t with
  | nil => simp [pieces]
  | cons c t =>
    rw [pieces]
    split
    · simp
    · split <;> simp

theorem join_cons {sep t : Text} {ts : List Text} (h : ts ≠ []) :
    join sep (t :: ts) = t ++ sep ++ join sep ts := by
  cases ts with
  | nil => exact absurd rfl h
  | cons u us => rfl

theorem join_concat {sep last : Text} : ∀ {ts : List Text}, ts ≠ [] →
    join sep (ts ++ [last]) = join sep ts ++ sep ++ last
  | [t], _ => rfl
  | t :: u :: ts, _ => by
    have ih := @join_concat sep last (u :: ts) (List.cons_ne_nil u ts)
    rw [List.cons_append, join_cons (by simp), ih, join_cons (List.cons_ne_nil u ts)]
    simp

/-- Texts that are joined end with the last of them. -/
theorem exists_join_concat (sep last : Text) (ts : List Text) : ∃ s, join sep (ts ++ [last]) = s ++ last := by
  by_cases hts : ts = []
  · exact ⟨[], by rw [hts]; rfl⟩
  · exact ⟨join sep ts ++ sep, join_concat hts⟩

/-- What holds of the characters of a separator and of some texts holds of those of the texts joined. -/
theorem forall_mem_join {p : Char → Prop} {sep : Text} {ts : List Text} (hsep : ∀ c ∈ sep, p c)
    (h : ∀ t ∈ ts, ∀ c ∈ t, p c) : ∀ c ∈ join sep ts, p c := by
  induction ts with
  | nil => exact fun c hc => absurd hc List.not_mem_nil
  | cons t ts ih =>
    rw [List.forall_mem_cons] at h
    by_cases hts : ts = []
    · rw [hts]
      exact h.1
    · rw [join_cons hts, List.forall_mem_append, List.forall_mem_append]
      exact ⟨⟨h.1, hsep⟩, ih h.2⟩

theorem pieces_cons_self (t : Text) : pieces sep (sep :: t) = [] :: t.pieces sep := by
  simp [pieces]

/-- A character that is no separator belongs to the first piece. -/
theorem pieces_cons_ne {c : Char} (h : c ≠ sep) {t p : Text} {ps : List Text}
    (ht : t.pieces sep = p :: ps) : pieces sep (c :: t) = (c :: p) :: ps := by
  simp [pieces, h, ht]

theorem join_pieces (t : Text) : join [sep] (t.pieces sep) = t := by
  induction t with
  | nil => rfl
  | cons c t ih =>
    by_cases hc : c = sep
    · subst hc
      rw [pieces_cons_self, join_cons (pieces_ne_nil _ t), ih]
      rfl
    · obtain ⟨p, ps, ht⟩ := List.exists_cons_of_ne_nil (pieces_ne_nil sep t)
      rw [pieces_cons_ne hc ht]
      rw [ht] at ih
      cases ps with
      | nil => exact congrArg (c :: ·) ih
      | cons q qs => exact congrArg (c :: ·) ih

theorem pieces_append {s : Text} (h : sep ∉ s) {t p : Text} {ps : List Text}
    (ht : t.pieces sep = p :: ps) : pieces sep (s ++ t) = (s ++ p) :: ps := by
  induction s with
  | nil => exact ht
  | cons c s ih =>
    rw [List.mem_cons, not_or] at h
    exact pieces_cons_ne (Ne.symm h.1) (ih h.2)

theorem pieces_of_not_mem {s : Text} (h : sep ∉ s) : pieces sep s = [s] := by
  have hs : pieces sep (s ++ []) = [s ++ []] := pieces_append h rfl
  rwa [List.append_nil] at hs

theorem pieces_append_sep (s t : Text) : pieces sep (s ++ sep :: t) = pieces sep s ++ pieces sep t := by
  induction s with
  | nil => exact pieces_cons_self t
  | cons c s ih =>
    by_cases hc : c = sep
    · subst hc
      rw [List.cons_append, pieces_cons_self, pieces_cons_self, ih, List.cons_append]
    · obtain ⟨p, ps, hps⟩ := List.exists_cons_of_ne_nil (pieces_ne_nil sep s)
      rw [hps, List.cons_append] at ih
      rw [List.cons_append, pieces_cons_ne hc ih, pieces_cons_ne hc hps, List.cons_append]

theorem pieces_append_cons {s : Text} (h : sep ∉ s) (t : Text) :
    pieces sep (s ++ sep :: t) = s :: t.pieces sep := by
  rw [pieces_append_sep, pieces_of_not_mem h, List.singleton_append]

/-- A piece has no separator, and no character that the text does not have. -/
theorem not_mem_of_mem_pieces {t : Text} : ∀ p ∈ t.pieces sep, sep ∉ p ∧ ∀ c ∈ p, c ∈ t := by
  induction t with
  | nil => simp [pieces]
  | cons c t ih =>
    by_cases hc : c = sep
    · subst hc
      rw [pieces_cons_self, List.forall_mem_cons]
      exact ⟨by simp, fun p hp => ⟨(ih p hp).1, fun d hd => List.mem_cons_of_mem c ((ih p hp).2 d hd)⟩⟩
    · obtain ⟨p, ps, hps⟩ := List.exists_cons_of_ne_nil (pieces_ne_nil sep t)
      rw [hps, List.forall_mem_cons] at ih
      rw [pieces_cons_ne hc hps, List.forall_mem_cons]
      obtain ⟨⟨hsep, hmem⟩, hrest⟩ := ih
      refine ⟨⟨?_, ?_⟩, fun q hq => ⟨(hrest q hq).1, fun d hd => List.mem_cons_of_mem c ((hrest q hq).2 d hd)⟩⟩
      · rw [List.mem_cons, not_or]
        exact ⟨Ne.symm hc, hsep⟩
      · intro d hd
        rcases List.mem_cons.mp hd with rfl | hd
        · exact List.mem_cons_self
        · exact List.mem_cons_of_mem c (hmem d hd)

theorem pieces_join {ts : List Text} (hne : ts ≠ []) (h : ∀ t ∈ ts, sep ∉ t) :
    (join [sep] ts).pieces sep = ts := by
  induction ts with
  | nil => exact absurd rfl hne
  | cons t ts ih =>
    have ht : sep ∉ t := h t List.mem_cons_self
    by_cases hts : ts = []
    · subst hts
      exact pieces_of_not_mem ht
    · rw [join_cons hts, List.append_assoc, List.singleton_append, pieces_append_cons ht,
        ih hts fun u hu => h u (List.mem_cons_of_mem t hu)]

/-- What holds of single lines and goes over from a text to the text with a line before it holds of all texts. -/
theorem line_induction {P : Text → Prop} (last : ∀ line, '\n' ∉ line → P line)
    (cons : ∀ line rest, '\n' ∉ line → P rest → P (line ++ '\n' :: rest)) (t : Text) : P t := by
  have hjoin : ∀ ts : List Text, ts ≠ [] → (∀ p ∈ ts, '\n' ∉ p) → P (join ['\n'] ts) := by
    intro ts hne hts
    induction ts with
    | nil => exact absurd rfl hne
    | cons p ts ih =>
      rw [List.forall_mem_cons] at hts
      cases ts with
      | nil => exact last p hts.1
      | cons q ts =>
        rw [join_cons (List.cons_ne_nil q ts), List.append_assoc, List.singleton_append]
        exact cons p _ hts.1 (ih (List.cons_ne_nil q ts) hts.2)
  have hpieces : join ['\n'] (t.pieces '\n') = t := join_pieces t
  rw [← hpieces]
  exact hjoin _ (pieces_ne_nil '\n' t) fun p hp => (not_mem_of_mem_pieces p hp).1

/-- Texts joined by a comma and a space fall apart at the commas, and the spaces stay. -/
theorem pieces_join_commaSpace {t : Text} {ts : List Text} (h : ∀ u ∈ t :: ts, ',' ∉ u) :
    (join ", " (t :: ts)).pieces ',' = t :: ts.map (' ' :: ·) := by
  have hjoin : ∀ (t : Text) (ts : List Text), join ", " (t :: ts) = join [','] (t :: ts.map (' ' :: ·)) := by
    intro t ts
    induction ts generalizing t with
    | nil => rfl
    | cons u us ih =>
      have hspace : join [','] ((' ' :: u) :: us.map (' ' :: ·)) = ' ' :: join ", " (u :: us) := by
        rw [ih u]
        cases us <;> rfl
      rw [List.map_cons, join_cons (List.cons_ne_nil _ _), join_cons (List.cons_ne_nil _ _), hspace]
      simp
  rw [hjoin, pieces_join (List.cons_ne_nil _ _)]
  rw [List.forall_mem_cons] at h ⊢
  refine ⟨h.1, fun u hu => ?_⟩
  obtain ⟨v, hv, rfl⟩ := List.mem_map.mp hu
  rw [List.mem_cons, not_or]
  exact ⟨by decide, h.2 v hv⟩

theorem dropLastChar_of_ne {c : Char} {t : Text} (h : t.getLast? ≠ some c) : dropLastChar c t = t := by
  rw [dropLastChar, if_neg h]

theorem linesOfPieces_cons {p : Text} {ps : List Text} (h : ps ≠ []) :
    linesOfPieces (p :: ps) = dropLastChar '\r' p :: linesOfPieces ps := by
  cases ps with
  | nil => exact absurd rfl h
  | cons q qs => rfl

theorem lines_append_newline {s : Text} (h : '\n' ∉ s) (t : Text) :
    lines (s ++ '\n' :: t) = dropLastChar '\r' s :: t.lines := by
  rw [lines, pieces_append_cons h, linesOfPieces_cons (pieces_ne_nil _ t)]
  rfl

/-- The lines of pieces, by the last of them. -/
theorem linesOfPieces_concat (p : Text) : ∀ ps : List Text,
    linesOfPieces (ps ++ [p]) = ps.map (dropLastChar '\r') ++ if p.isEmpty then [] else [p]
  | [] => rfl
  | q :: ps => by
    rw [List.cons_append, linesOfPieces_cons (by simp), linesOfPieces_concat p ps, List.map_cons,
      List.cons_append]

/-- The last piece ends as the text does. -/
theorem exists_pieces_eq_concat {d : Char} (hd : d ≠ sep) :
    ∀ {t : Text}, t.getLast? = some d → ∃ ps p, t.pieces sep = ps ++ [p ++ [d]]
  | [], h => by cases h
  | [c], h => by
    obtain rfl : c = d := by simpa using h
    exact ⟨[], [], by simp [pieces, hd]⟩
  | c :: e :: t, h => by
    rw [List.getLast?_cons_cons] at h
    obtain ⟨ps, p, hps⟩ := exists_pieces_eq_concat hd h
    by_cases hc : c = sep
    · subst hc
      exact ⟨[] :: ps, p, by rw [pieces_cons_self, hps, List.cons_append]⟩
    · cases ps with
      | nil => exact ⟨[], c :: p, pieces_cons_ne hc hps⟩
      | cons q ps => exact ⟨(c :: q) :: ps, p, pieces_cons_ne hc hps⟩

theorem mem_of_mem_dropLastChar {c d : Char} {t : Text} (h : d ∈ dropLastChar c t) : d ∈ t := by
  rw [dropLastChar] at h
  split at h
  · exact (List.dropLast_sublist t).subset h
  · exact h

/-- A line is a piece between line feeds, perhaps without a carriage return at its end. -/
theorem exists_of_mem_linesOfPieces : ∀ {ps : List Text}, ∀ l ∈ linesOfPieces ps,
    ∃ p ∈ ps, ∀ c ∈ l, c ∈ p
  | [], l, h => absurd h List.not_mem_nil
  | [p], l, h => by
    rw [linesOfPieces] at h
    split at h
    · cases h
    · exact ⟨p, List.mem_cons_self, List.mem_singleton.mp h ▸ fun _ => id⟩
  | p :: q :: ps, l, h => by
    rw [linesOfPieces_cons (List.cons_ne_nil q ps), List.mem_cons] at h
    rcases h with rfl | h
    · exact ⟨p, List.mem_cons_self, fun _ => mem_of_mem_dropLastChar⟩
    · obtain ⟨p', hp', hl⟩ := exists_of_mem_linesOfPieces l h
      exact ⟨p', List.mem_cons_of_mem p hp', hl⟩

theorem newline_notMem_of_mem_lines {t : Text} : ∀ l ∈ t.lines, '\n' ∉ l := by
  intro l hl hmem
  obtain ⟨p, hp, hsub⟩ := exists_of_mem_linesOfPieces l hl
  exact (not_mem_of_mem_pieces p hp).1 (hsub _ hmem)

theorem wordsFrom_append {s : Text} (hs : ∀ c ∈ s, GoDraft.isBlank c = false) (word t : Text) :
    wordsFrom word (s ++ t) = wordsFrom (s.reverse ++ word) t := by
  induction s generalizing word with
  | nil => rfl
  | cons c s ih =>
    rw [List.forall_mem_cons] at hs
    rw [List.cons_append, wordsFrom, if_neg (by simp [hs.1]), ih hs.2, List.reverse_cons, List.append_assoc]
    rfl

/-- A blank at the start is no part of a word. -/
theorem words_cons_of_isBlank {c : Char} (hc : GoDraft.isBlank c = true) (t : Text) : words (c :: t) = t.words := by
  rw [words, wordsFrom, if_pos hc]
  rfl

theorem words_append_of_isBlank {gap : Text} (hgap : gap.isBlank = true) (t : Text) : words (gap ++ t) = t.words := by
  induction gap with
  | nil => rfl
  | cons c gap ih =>
    rw [isBlank, List.all_cons, Bool.and_eq_true] at hgap
    rw [List.cons_append, words_cons_of_isBlank hgap.1, ih hgap.2]

/-- A word alone. -/
theorem words_word {s : Text} (hs : ∀ c ∈ s, GoDraft.isBlank c = false) (hne : s ≠ []) : words s = [s] := by
  have hall := wordsFrom_append hs [] []
  rw [List.append_nil, List.append_nil, wordsFrom, if_neg (by simp [hne]), List.reverse_reverse] at hall
  exact hall

/-- The first word of a text, with a blank behind it. -/
theorem words_append_blank {s : Text} (hs : ∀ c ∈ s, GoDraft.isBlank c = false) (hne : s ≠ []) {c : Char}
    (hc : GoDraft.isBlank c = true) (t : Text) : words (s ++ c :: t) = s :: t.words := by
  rw [words, wordsFrom_append hs, List.append_nil, wordsFrom, if_pos hc, if_neg (by simp [hne]), List.reverse_reverse]
  rfl

end GoDraft.Text
