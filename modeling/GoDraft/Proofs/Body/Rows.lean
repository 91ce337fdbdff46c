import GoDraft.Pattern.Template
import GoDraft.Proofs.Body.Line

/-!
# GoDraft — rows of a text

Between the rules a body is a text of rows, each with a line of statements between spaces and tabs. What
a rule does to such a text follows from what it does to one row.

* `Row`, `rowsText` — rows and their text after the first rules;
* `EndsLine` — what can follow a line;
* `replaceAll_rowsText_of_row` — from one row to all rows;
* `replaceAll_rowsText_of_line` — the same for patterns that do not begin with spaces;
* `views_blanks_rows` — blanks lead from the end of a line to the start of a later one.
-/

namespace GoDraft

/-- A row of a text: a line between spaces and tabs, or only these. -/
structure Row where
  lead : Gap
  line? : Option Line
  trail : Gap

/-- The text of a row after the first `k` rules. -/
def Row.text (k : Nat) (r : Row) : Text :=
  r.lead.text ++ (r.line?.elim [] (Line.form k) ++ r.trail.text)

/-- Rows that follow another one. -/
def rowsTail (k : Nat) : List Row → Text
  | [] => []
  | r :: rs => '\n' :: (r.text k ++ rowsTail k rs)

/-- The text of some rows after the first `k` rules. -/
def rowsText (k : Nat) : List Row → Text
  | [] => []
  | r :: rs => r.text k ++ rowsTail k rs

/-! ## What follows a line -/

/-- Nothing but spaces and tabs up to the end of the line. -/
def EndsLine (t : Text) : Prop :=
  ∃ s r, t = s ++ r ∧ (∀ c ∈ s, isGap c = true) ∧ stopsAt (· != '\n') r = true

theorem stopsAt_rowsTail (k : Nat) (rs : List Row) : stopsAt (· != '\n') (rowsTail k rs) = true := by
  cases rs with
  | nil => rfl
  | cons r rs => rfl

theorem endsLine_rows (g : Gap) (k : Nat) (rs : List Row) : EndsLine (g.text ++ rowsTail k rs) :=
  ⟨g.text, rowsTail k rs, rfl, g.isGap, stopsAt_rowsTail k rs⟩

namespace EndsLine

variable {t : Text}

/-- What follows a line begins with a space, a tab or a line feed, or is empty. -/
theorem stopsAt (h : EndsLine t) {accepts : Char → Bool}
    (hreject : (" \t\n".toList.all fun c => !accepts c) = true) : stopsAt accepts t = true := by
  obtain ⟨s, r, rfl, hs, hr⟩ := h
  rw [List.all_eq_true] at hreject
  cases s with
  | cons c s =>
    exact hreject c (mem_of_isGap (hs c List.mem_cons_self))
  | nil =>
    cases r with
    | nil => rfl
    | cons c r =>
      have hc : c = '\n' := by simpa using hr
      rw [hc]
      exact hreject '\n' (by decide)

theorem stopsAt_word (h : EndsLine t) : GoDraft.stopsAt isWordChar t = true := h.stopsAt (by decide)

theorem views_eq_nil (h : EndsLine t) {q : Pattern} (hq : q.rejectsAll " \t\n" = true)
    (b : Option Char) (g : Notes) : q.views ⟨b, t, g⟩ = [] := by
  rw [Pattern.rejectsAll, Bool.and_eq_true, Bool.not_eq_true'] at hq
  exact Pattern.views_eq_nil_of_head hq.1 (h.stopsAt hq.2)

theorem of_cons {c : Char} (h : EndsLine (c :: t)) (hc : c ≠ '\n') : EndsLine t := by
  obtain ⟨s, r, hsr, hs, hr⟩ := h
  cases s with
  | nil =>
    rw [List.nil_append] at hsr
    rw [← hsr] at hr
    exact absurd (by simpa using hr) hc
  | cons d s =>
    rw [List.cons_append, List.cons.injEq] at hsr
    exact ⟨s, r, hsr.2, fun e he => hs e (List.mem_cons_of_mem d he), hr⟩

/-- Behind a line, spaces and tabs lead only to its end. -/
theorem views_gap_seq (h : EndsLine t) {q : Pattern} (hq : q.rejectsAll " \t\n" = true)
    (b : Option Char) (g : Notes) : (Pattern.gap ++ q).views ⟨b, t, g⟩ = [] := by
  obtain ⟨s, r, rfl, hs, hr⟩ := h
  have hclass : ∀ c ∈ s, (" \t".toList.elem c) = true := by
    intro c hc
    rcases eq_of_isGap (hs c hc) with rfl | rfl <;> decide
  have hreject : ∀ c ∈ s, q.Rejects c := fun c hc =>
    Pattern.rejects_of_rejectsAll hq (mem_of_isGap (hs c hc))
  have hend : EndsLine r := ⟨[], r, rfl, fun _ h => absurd h List.not_mem_nil, hr⟩
  have hstop : GoDraft.stopsAt (fun c => " \t".toList.elem c) r = true := by
    cases r with
    | nil => rfl
    | cons c r =>
      have hc : c = '\n' := by simpa using hr
      rw [hc, stopsAt_cons]
      decide
  have hrun : (Pattern.gap ++ q).views ⟨b, s ++ r, g⟩ = q.views ⟨lastOf b s, r, g⟩ :=
    (Pattern.runsTo_many hclass hstop b g).views_seq hreject
  rw [hrun, hend.views_eq_nil hq]

/-- A lazy run does not lead beyond the end of the line. -/
theorem views_lazy_seq (h : EndsLine t) {q : Pattern} (hq : q.rejectsAll " \t\n" = true)
    (b : Option Char) : (Pattern.someOfLine ++ q).views ⟨b, t, []⟩ = [] := by
  obtain ⟨s, r, rfl, hs, hr⟩ := h
  apply Pattern.views_lazy_of_skips
  · exact Pattern.skips_of_forall_rejects
      (fun c hc => Pattern.rejects_of_rejectsAll hq (mem_of_isGap (hs c hc))) b r
  · have hend : EndsLine r := ⟨[], r, rfl, fun _ h => absurd h List.not_mem_nil, hr⟩
    cases r with
    | nil => rw [Pattern.views_lazy_nil, hend.views_eq_nil hq]
    | cons c r =>
      have hc : c = '\n' := by simpa using hr
      rw [Pattern.views_lazy_cons, hend.views_eq_nil hq, hc]
      rfl

end EndsLine

/-! ## From one row to all rows -/

variable {p : Pattern} {f : Match → Text} {k k' : Nat}

/-- Whether the character before a place ends a line, or there is none. -/
def startsLine (b : Option Char) : Bool := b.all (· == '\n')

theorem replaceFrom_rowsTail (hnewline : p.Rejects '\n')
    (hrow : ∀ (r : Row) (rs : List Row) (b : Option Char) (offset : Nat), startsLine b = true →
      p.replaceFrom f b offset 0 (r.text k ++ rowsTail k rs) =
        r.text k' ++ p.replaceFrom f (lastOf b (r.text k)) (offset + (r.text k).size) 0 (rowsTail k rs)) :
    ∀ (rs : List Row) (b : Option Char) (offset : Nat),
      p.replaceFrom f b offset 0 (rowsTail k rs) = rowsTail k' rs
  | [], _, _ => rfl
  | r :: rs, b, offset => by
    have ih := replaceFrom_rowsTail hnewline hrow rs
    have hfail : p.matchAt? ⟨b, offset, '\n' :: (r.text k ++ rowsTail k rs)⟩ = none :=
      Pattern.matchAt?_eq_none_iff.mpr (hnewline _ rfl)
    rw [rowsTail, Pattern.replaceFrom_none hfail, hrow r rs _ _ rfl, ih, rowsTail]

/-- A rule that takes every row from one form to another takes all rows there. -/
theorem replaceAll_rowsText_of_row (hnewline : p.Rejects '\n')
    (hrow : ∀ (r : Row) (rs : List Row) (b : Option Char) (offset : Nat), startsLine b = true →
      p.replaceFrom f b offset 0 (r.text k ++ rowsTail k rs) =
        r.text k' ++ p.replaceFrom f (lastOf b (r.text k)) (offset + (r.text k).size) 0 (rowsTail k rs))
    (rs : List Row) : p.replaceAll f (rowsText k rs) = rowsText k' rs := by
  unfold Pattern.replaceAll
  cases rs with
  | nil => rfl
  | cons r rs => rw [rowsText, hrow r rs _ _ rfl, replaceFrom_rowsTail hnewline hrow rs, rowsText]

/-- Replacing over a line takes it from its form after `k` rules to its form after `k'`. -/
def TakesLine (p : Pattern) (f : Match → Text) (k k' : Nat) (l : Line) : Prop :=
  ∀ (g : Gap) (rs : List Row) (b : Option Char) (offset : Nat), b.any isWordChar = false →
    p.replaceFrom f b offset 0 (l.form k ++ (g.text ++ rowsTail k rs)) =
      l.form k' ++
        p.replaceFrom f (lastOf b (l.form k)) (offset + (l.form k).size) 0 (g.text ++ rowsTail k rs)

theorem any_isWordChar_of_startsLine {b : Option Char} (h : startsLine b = true) (g : Gap) :
    (lastOf b g.text).any isWordChar = false := by
  by_cases hg : g.text = []
  · rw [hg, lastOf_nil]
    cases b with
    | none => rfl
    | some c =>
      have hc : c = '\n' := by simpa [startsLine] using h
      rw [hc]
      decide
  · obtain ⟨c, hc, hlast⟩ := lastOf_mem b hg
    rw [hlast]
    exact isWordChar_of_isGap (g.isGap c hc)

theorem replaceFrom_gap (hp : p.rejectsAll " \t\n" = true) (g : Gap) (t : Text) (b : Option Char)
    (offset : Nat) : p.replaceFrom f b offset 0 (g.text ++ t) =
      g.text ++ p.replaceFrom f (lastOf b g.text) (offset + g.text.size) 0 t := by
  apply Pattern.replaceFrom_skips
  apply Pattern.skips_of_forall_rejects
  intro c hc
  exact Pattern.rejects_of_rejectsAll hp (mem_of_isGap (g.isGap c hc))

/-- A rule that does not begin with spaces, tabs or line feeds and takes every line from one form to
another takes all rows there. -/
theorem replaceAll_rowsText_of_line (hp : p.rejectsAll " \t\n" = true)
    (hline : ∀ l, TakesLine p f k k' l) (rs : List Row) :
    p.replaceAll f (rowsText k rs) = rowsText k' rs := by
  apply replaceAll_rowsText_of_row (Pattern.rejects_of_rejectsAll hp (by decide))
  intro r rs b offset hb
  obtain ⟨lead, line?, trail⟩ := r
  have hgap := any_isWordChar_of_startsLine hb lead
  cases line? with
  | none =>
    simp only [Row.text, Option.elim_none, List.nil_append, List.append_assoc]
    rw [replaceFrom_gap hp, replaceFrom_gap hp, lastOf_append, Text.size_append, Nat.add_assoc]
  | some l =>
    simp only [Row.text, Option.elim_some, List.append_assoc]
    rw [replaceFrom_gap hp, hline l trail rs _ _ hgap, replaceFrom_gap hp]
    simp only [lastOf_append, Text.size_append, Nat.add_assoc]

/-! ## From the end of a line to the next one -/

open Pattern in
/-- Blanks lead from the end of a line to the start of a later line, or to the end of the text. -/
theorem views_blanks_rows {q : Pattern} (hq : q.rejectsAll " \t\n" = true)
    (hline : ∀ (l : Line) (t : Text) (b : Option Char), EndsLine t →
      (blanks ++ q).views ⟨b, l.form k ++ t, []⟩ = [])
    (g : Gap) (rs : List Row) (b : Option Char) :
    (blanks ++ q).views ⟨b, g.text ++ rowsTail k rs, []⟩ = [] := by
  have hgap : ∀ (g : Gap) (t : Text) (b : Option Char),
      (blanks ++ q).views ⟨b, g.text ++ t, []⟩ = (blanks ++ q).views ⟨lastOf b g.text, t, []⟩ := by
    intro g t b
    apply views_run_append
    · intro c hc
      rcases eq_of_isGap (g.isGap c hc) with rfl | rfl <;> decide
    · exact fun c hc => rejects_of_rejectsAll hq (mem_of_isGap (g.isGap c hc))
  rw [hgap]
  -- on the rows: one without a line is blank and is gone through as well
  induction rs generalizing b g with
  | nil =>
    rw [rowsTail, blanks, views_run_nil]
    apply views_eq_nil_of_head _ rfl
    rw [rejectsAll, Bool.and_eq_true, Bool.not_eq_true'] at hq
    exact hq.1
  | cons r rs ih =>
    obtain ⟨lead, line?, trail⟩ := r
    have hnewline : q.Rejects '\n' := rejects_of_rejectsAll hq (by decide)
    rw [rowsTail, blanks, views_run_cons (fun _ => hnewline), if_pos (by decide), ← blanks, Row.text,
      List.append_assoc, hgap]
    cases line? with
    | none =>
      rw [Option.elim_none, List.nil_append, hgap]
      exact ih Gap.empty _
    | some l =>
      rw [Option.elim_some, List.append_assoc]
      exact hline l _ _ (endsLine_rows trail k rs)

end GoDraft
