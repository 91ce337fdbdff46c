import GoDraft.Proofs.Body.Balance
import GoDraft.Proofs.Java.ClassName
import GoDraft.Proofs.Pattern.Calls
import GoDraft.Proofs.Text.Trim

/-!
# GoDraft — the readings of a body make no call

Putting statements on lines, dropping their terminators and writing the lines of a block go through a body
character by character. All three take blanks and semicolons away, but nothing that stood apart grows together to
a call: what is taken away stands beside a character that calls do not have, or a line feed comes in its place.

* `calls_splitStatements_le` — one statement a line;
* `calls_stripTerminators_le` — without terminators;
* `calls_bodyLines_le` — the lines of a block.
-/

namespace GoDraft

open Text

variable {name : Text} (hname : IsDotted name)

/-! ## One statement a line -/

namespace StatementLines

/-- Where a line is still to end, what has been written ends with a character that dotted names do not have. -/
def Settled (st : StatementLines) : Prop := st.pending = true → isCut st.out.reverse = true

theorem Pauses.settled {st : StatementLines} (h : st.Pauses) : st.Settled := by
  have hcut : ∀ c ∈ ";\x7b\x7d".toList, isDottedChar c = false := by decide
  intro hpending
  obtain ⟨c, hc, hhead⟩ := h hpending
  rw [isCut, List.getLast?_reverse, hhead, Option.any_some, hcut c hc]
  rfl

include hname

theorem calls_settle_le {st : StatementLines} (h : st.Settled) (c : Char) (rest : Text) :
    calls name ((st.settle c).out.reverse ++ rest) ≤ calls name (st.out.reverse ++ rest) := by
  unfold settle
  split
  · exact Nat.le_refl _
  · rename_i hpending
    split
    · exact Nat.le_refl _
    · have hcut := h (by simpa using hpending)
      rw [List.reverse_cons, List.append_assoc, List.singleton_append,
        calls_append_cons hname (by decide) (by decide), calls_append_of_isCut hname hcut]

/-- A line feed and a brace part what is written from what follows. -/
theorem calls_freshLine_le (st : StatementLines) (rest : Text) :
    calls name (st.freshLine.out.reverse ++ '}' :: rest) ≤ calls name (st.out.reverse ++ '}' :: rest) := by
  unfold freshLine
  split
  · exact Nat.le_refl _
  · have hdrop := calls_reverse_dropWhile_le name isGap st.out
    have hbrace := calls_append_cons hname (c := '}') (by decide) (by decide) [] rest
    rw [List.nil_append, calls_nil] at hbrace
    rw [List.reverse_cons, List.append_assoc, List.singleton_append,
      calls_append_cons hname (by decide) (by decide), calls_append_cons hname (by decide) (by decide), hbrace]
    omega

theorem calls_code_le (st : StatementLines) (c : Char) (ahead rest : Text) :
    calls name ((st.code c ahead).out.reverse ++ c :: rest) ≤ calls name (st.out.reverse ++ c :: rest) := by
  unfold code
  split
  · exact Nat.le_refl _
  · exact Nat.le_refl _
  · split <;> exact Nat.le_refl _
  · unfold openBrace
    dsimp only
    split <;> exact Nat.le_refl _
  · unfold closeBrace
    dsimp only
    split
    · exact calls_freshLine_le hname _ rest
    · exact Nat.le_refl _
  · exact Nat.le_refl _

/-- One character goes from the rest of the body to what has been written. -/
theorem calls_feed_le {st : StatementLines} (h : st.Settled) (s : Seen Char) (ahead : List (Seen Char))
    (rest : Text) : (st.feed s ahead).Settled ∧
      calls name ((st.feed s ahead).out.reverse ++ rest) ≤ calls name (st.out.reverse ++ s.letter :: rest) := by
  unfold feed
  split
  · rename_i hgap
    rw [Bool.and_eq_true] at hgap
    have hrest := calls_le_cons name s.letter rest
    refine ⟨h, ?_⟩
    rw [calls_append_of_isCut hname (h hgap.1), calls_append_of_isCut hname (h hgap.1)]
    omega
  · have hsettle := calls_settle_le hname h s.letter (s.letter :: rest)
    have hpush (st' : StatementLines) :
        (st'.push s.letter).out.reverse ++ rest = st'.out.reverse ++ s.letter :: rest := by
      rw [push, List.reverse_cons, List.append_assoc, List.singleton_append]
    dsimp only
    split
    · refine ⟨(pauses_code_push (pending_settle st _) _ _).settled, ?_⟩
      rw [hpush]
      exact (calls_code_le hname _ _ _ rest).trans hsettle
    · refine ⟨(pauses_push (pending_settle st _) _).settled, ?_⟩
      rw [hpush]
      exact hsettle

theorem calls_run_le (seen : List (Seen Char)) {st : StatementLines} (h : st.Settled) :
    calls name (st.run seen).out.reverse ≤ calls name (st.out.reverse ++ seen.map Seen.letter) := by
  induction seen generalizing st with
  | nil => rw [run, List.map_nil, List.append_nil]
  | cons s seen ih =>
    obtain ⟨hsettled, hfeed⟩ := calls_feed_le hname h s seen (seen.map Seen.letter)
    rw [run, List.map_cons]
    exact (ih hsettled).trans hfeed

end StatementLines

include hname in
/-- Putting statements on lines makes no call. -/
theorem calls_splitStatements_le (body : Text) : calls name (splitStatements body) ≤ calls name body := by
  have hsettled : StatementLines.Settled {} := fun hpending => by cases hpending
  have hrun := StatementLines.calls_run_le hname (scan body) hsettled
  rwa [map_letter_scan] at hrun

/-! ## Terminators -/

theorem isDottedChar_of_isBlank {c : Char} (h : GoDraft.isBlank c = true) : isDottedChar c = false ∧ c ≠ '(' := by
  have hdot : c ≠ '.' ∧ c ≠ '(' := by
    constructor
    all_goals
      rintro rfl
      exact absurd h (by decide)
  refine ⟨Bool.eq_false_iff.mpr fun hdotted => ?_, hdot.2⟩
  rw [isDottedChar, Bool.or_eq_true, beq_iff_eq] at hdotted
  rw [isBlank_of_isWordChar (hdotted.resolve_right hdot.1)] at h
  cases h

/-- Blanks do not go on with a name. -/
theorem goesOn_of_trimStart {t : Text} (h : t.trimStart.goesOn = false) : t.goesOn = false := by
  cases t with
  | nil => rfl
  | cons c t =>
    cases hc : GoDraft.isBlank c with
    | true =>
      obtain ⟨hdotted, hparen⟩ := isDottedChar_of_isBlank hc
      simp [goesOn, hdotted, hparen]
    | false =>
      have hsame : trimStart (c :: t) = c :: t := by rw [trimStart, List.dropWhile_cons_of_neg (by simp [hc])]
      rwa [hsame] at h

namespace Terminators

/-- Nothing goes on with a comment or another semicolon. -/
theorem goesOn_of_ahead {t : Text} (h : (t.startsWith "//" || t.head? == some ';') = true) : t.goesOn = false := by
  rw [Bool.or_eq_true, startsWith, List.isPrefixOf_iff_prefix, beq_iff_eq] at h
  rcases h with ⟨rest, rfl⟩ | h
  · have hslash : (isDottedChar '/' || '/' == '(') = false := by decide
    exact hslash
  · rw [goesOn, h]
    decide

include hname

/-- The rest of a line goes behind what has been written. Where blanks are skipped, that ends with a line feed. -/
theorem calls_walk_le (t : Text) (st : Terminators) (before : Option Char)
    (hskip : st.skipping = true → isCut st.out.reverse = true) :
    calls name (st.walk before t) ≤ calls name (st.out.reverse ++ t) := by
  induction t generalizing st before with
  | nil => rw [walk, List.append_nil]
  | cons c rest ih =>
    have hreads := st.reads_walk before c rest
    generalize st.walk before (c :: rest) = out at hreads
    -- a semicolon parts what is written from the rest
    have hsplit (hc : c = ';') :
        calls name (st.out.reverse ++ c :: rest) = calls name st.out.reverse + calls name rest := by
      rw [hc]
      exact calls_append_cons hname (by decide) (by decide) _ _
    cases hreads with
    | @write st' hout hwritten =>
      have hwalk := ih st' (some c) fun h => by rw [hwritten] at h; cases h
      rwa [hout, List.reverse_cons, List.append_assoc, List.singleton_append] at hwalk
    | skip hskipping _ =>
      have hrest := calls_le_cons name c rest
      have hwalk := ih st (some c) hskip
      rw [calls_append_of_isCut hname (hskip hskipping)] at hwalk ⊢
      omega
    | comment => exact Nat.le_refl _
    | finish hc _ =>
      rw [hsplit hc]
      exact Nat.le_add_right _ _
    | drop hc hahead =>
      have hrest : goesOn rest = false := goesOn_of_trimStart (goesOn_of_ahead hahead)
      have hwalk := ih st (some c) hskip
      rwa [calls_append_of_goesOn hname hrest, ← hsplit hc] at hwalk
    | endLine hc =>
      have hdrop := calls_reverse_dropWhile_le name GoDraft.isBlank st.out
      have hcut : isCut ('\n' :: st.out.dropWhile GoDraft.isBlank).reverse = true := by
        rw [List.reverse_cons]
        exact isCut_append (by decide) _
      have hwalk := ih { st with out := '\n' :: st.out.dropWhile GoDraft.isBlank, skipping := true } (some c)
        fun _ => hcut
      rw [List.reverse_cons, List.append_assoc, List.singleton_append,
        calls_append_cons hname (by decide) (by decide)] at hwalk
      rw [hsplit hc]
      omega

end Terminators

/-! ## Lines -/

include hname in
/-- The calls of a text are those of its lines. -/
theorem calls_join_newline : ∀ ts : List Text, calls name (join "\n" ts) = (ts.map (calls name)).sum
  | [] => calls_nil name
  | [t] => by simp [join]
  | t :: u :: ts => by
    have ih := calls_join_newline (u :: ts)
    rw [join_cons (List.cons_ne_nil u ts), List.append_assoc]
    have hline : "\n".toList ++ join "\n" (u :: ts) = '\n' :: join "\n" (u :: ts) := rfl
    rw [hline, calls_append_cons hname (by decide) (by decide), ih]
    simp

include hname in
/-- Dropping terminators makes no call. -/
theorem calls_stripTerminators_le (t : Text) : calls name (stripTerminators t) ≤ calls name t := by
  have hjoin : join "\n" (t.pieces '\n') = t := join_pieces t
  have hlines : ((t.pieces '\n').map fun line => calls name (dropTerminators line)).sum ≤
      ((t.pieces '\n').map (calls name)).sum :=
    List.sum_le_sum fun line _ => Terminators.calls_walk_le hname line {} none fun hskip => by cases hskip
  rw [stripTerminators, calls_join_newline hname, List.map_map]
  conv => rhs; rw [← hjoin, calls_join_newline hname]
  exact hlines

/-- A line has no more calls than its piece of the text. -/
theorem sum_calls_linesOfPieces_le : ∀ ps : List Text,
    ((linesOfPieces ps).map (calls name)).sum ≤ (ps.map (calls name)).sum
  | [] => Nat.le_refl _
  | [t] => by
    rw [linesOfPieces]
    split <;> simp
  | t :: u :: ts => by
    have ih := sum_calls_linesOfPieces_le (u :: ts)
    have hline : calls name (dropLastChar '\r' t) ≤ calls name t := by
      rw [dropLastChar]
      split
      · exact calls_le_of_infix name (List.dropLast_prefix t).isInfix
      · exact Nat.le_refl _
    rw [linesOfPieces_cons (List.cons_ne_nil u ts), List.map_cons, List.map_cons, List.sum_cons, List.sum_cons]
    omega

include hname in
theorem calls_indented (lines : List Text) :
    calls name (lines.flatMap fun line => indent ++ line ++ "\n".toList) = (lines.map (calls name)).sum := by
  induction lines with
  | nil => exact calls_nil name
  | cons line lines ih =>
    have hindent : calls name (indent ++ line) = calls name line := by
      rw [calls_append_of_isCut hname (by decide), calls_eq_zero name (by decide), Nat.zero_add]
    have hline (rest : Text) :
        calls name (indent ++ line ++ "\n".toList ++ rest) = calls name line + calls name rest := by
      rw [calls_append_of_isCut hname (isCut_append (by decide) _), calls_append_of_not_mem name (by decide), hindent]
    rw [List.flatMap_cons, hline, ih, List.map_cons, List.sum_cons]

include hname in
/-- The lines of a block make no call. -/
theorem calls_bodyLines_le (t : Text) : calls name (bodyLines t) ≤ calls name t := by
  have hjoin : join "\n" (t.pieces '\n') = t := join_pieces t
  calc calls name (bodyLines t)
      = (((t.lines.map trim).filter fun line => !line.isEmpty).map (calls name)).sum := calls_indented hname _
    _ ≤ ((t.lines.map trim).map (calls name)).sum := (List.filter_sublist.map _).sum_le_sum fun _ _ => Nat.zero_le _
    _ ≤ (t.lines.map (calls name)).sum := by
      rw [List.map_map]
      exact List.sum_le_sum fun line _ => calls_le_of_infix name ( trim_infix line)
    _ ≤ ((t.pieces '\n').map (calls name)).sum := sum_calls_linesOfPieces_le _
    _ = calls name t := by rw [← calls_join_newline hname, hjoin]

end GoDraft
