import GoDraft.Body.StatementLines
import GoDraft.Body.Terminators
import GoDraft.Proofs.Pattern.Spelling
import GoDraft.Proofs.Scan.Letters
import GoDraft.Proofs.Text.Lines

/-!
# GoDraft — what the two readings of a body keep

Putting statements on lines and dropping their terminators go through a body character by character. Both
drop and write nothing but blanks and semicolons, so all other characters stay, in their order.

* `Lasting` — characters that are neither blanks nor semicolons;
* `Breaks.splitStatements` — what putting statements on lines can do to a text;
* `Sheds.stripTerminators` — what dropping terminators can do to a text;
* `trace_splitStatements`, `trace_stripTerminators` — such characters stay.
-/

namespace GoDraft

open Text

/-- Neither blanks nor semicolons are followed. -/
structure Lasting (kept : Text) : Prop where
  blank : ∀ c ∈ kept, isBlank c = false
  semicolon : ';' ∉ kept

variable {kept : Text}

namespace Lasting

theorem trace_eq_nil (h : Lasting kept) {t : Text} (ht : ∀ c ∈ t, isBlank c = true) : t.trace kept = [] := by
  rw [trace_eq_nil_iff]
  intro c hc hmem
  have hblank := h.blank c hc
  rw [ht c hmem] at hblank
  cases hblank

theorem trace_dropWhile (h : Lasting kept) {accepts : Char → Bool}
    (haccepts : ∀ c, accepts c = true → isBlank c = true) (t : Text) :
    trace (t.dropWhile accepts) kept = t.trace kept := by
  have hnil : trace (t.takeWhile accepts) kept = [] :=
    h.trace_eq_nil fun c hc => haccepts c (List.mem_takeWhile_imp hc)
  conv => rhs; rw [← List.takeWhile_append_dropWhile (p := accepts) (l := t)]
  rw [trace_append, hnil, List.nil_append]

theorem trace_cons_blank (h : Lasting kept) {c : Char} (hc : isBlank c = true) (t : Text) :
    trace (c :: t) kept = t.trace kept := by
  rw [trace_cons, h.trace_eq_nil (by simpa using hc), List.nil_append]

theorem trace_cons_newline (h : Lasting kept) (t : Text) : trace ('\n' :: t) kept = t.trace kept :=
  h.trace_cons_blank (by decide) t

theorem trace_cons_semicolon (h : Lasting kept) (t : Text) : trace (';' :: t) kept = t.trace kept := by
  have hnil : trace [';'] kept = [] := by
    rw [trace_eq_nil_iff]
    intro c hc hmem
    rw [List.mem_singleton.mp hmem] at hc
    exact h.semicolon hc
  rw [trace_cons, hnil, List.nil_append]

end Lasting

theorem trace_trimEnd {kept : Text} (h : Lasting kept) (t : Text) : t.trimEnd.trace kept = t.trace kept := by
  rw [trimEnd, trace_reverse, h.trace_dropWhile fun _ => id, trace_reverse, List.reverse_reverse]

theorem isBlank_of_isGap {c : Char} (h : isGap c = true) : isBlank c = true := by
  rw [isGap, Bool.or_eq_true, beq_iff_eq, beq_iff_eq] at h
  rcases h with rfl | rfl <;> decide

/-! ## One statement a line -/

namespace StatementLines

/-- Where a line is still to end, the end of a statement or a brace has been written last. -/
def Pauses (st : StatementLines) : Prop := st.pending = true → ∃ c ∈ ";\x7b\x7d".toList, st.out.head? = some c

theorem pending_settle (st : StatementLines) (c : Char) : (st.settle c).pending = false := by
  unfold settle
  split
  · rename_i hpending
    simpa using hpending
  · split <;> rfl

theorem pauses_push {st : StatementLines} (h : st.pending = false) (c : Char) : (st.push c).Pauses := by
  intro hpending
  rw [push, h] at hpending
  cases hpending

theorem pauses_code_push {st : StatementLines} (h : st.pending = false) (c : Char) (rest : Text) :
    ((st.code c rest).push c).Pauses := by
  have hend {c : Char} (hc : c ∈ ";\x7b\x7d".toList) (st' : StatementLines) : (st'.push c).Pauses :=
    fun _ => ⟨c, hc, rfl⟩
  unfold code
  split
  · exact pauses_push h _
  · exact pauses_push h _
  · exact hend (by decide) _
  · exact hend (by decide) _
  · exact hend (by decide) _
  · exact pauses_push h _

end StatementLines

/-- A relation between texts that holds where spaces and tabs are dropped and lines are begun around the ends of
statements. -/
structure Breaks (R : Text → Text → Prop) : Prop where
  refl : ∀ s, R s s
  trans : ∀ {s t u}, R s t → R t u → R s u
  append : ∀ {s s' t t'}, R s s' → R t t' → R (s ++ t) (s' ++ t')
  gap : ∀ {c}, isGap c = true → R [c] []
  behind : ∀ c ∈ ";\x7b\x7d".toList, R [c] [c, '\n']
  before : R ['\x7d'] ['\n', '\x7d']

namespace Breaks

variable {R : Text → Text → Prop} (hR : Breaks R)

include hR

theorem gaps {s : Text} (h : ∀ c ∈ s, isGap c = true) : R s [] := by
  induction s with
  | nil => exact hR.refl []
  | cons c s ih =>
    rw [List.forall_mem_cons] at h
    exact hR.append (hR.gap h.1) (ih h.2)

theorem settle {st : StatementLines} (hst : st.Pauses) (c : Char) : R st.out.reverse (st.settle c).out.reverse := by
  unfold StatementLines.settle
  split
  · exact hR.refl _
  · rename_i hpending
    split
    · exact hR.refl _
    · obtain ⟨d, hd, hhead⟩ := hst (by simpa using hpending)
      obtain ⟨out, hout⟩ := List.head?_eq_some_iff.mp hhead
      rw [List.reverse_cons, hout, List.reverse_cons, List.append_assoc]
      exact hR.append (hR.refl _) (hR.behind d hd)

theorem freshLine (st : StatementLines) : R (st.out.reverse ++ ['\x7d']) (st.freshLine.out.reverse ++ ['\x7d']) := by
  unfold StatementLines.freshLine
  split
  · exact hR.refl _
  · have hgaps : R (st.out.takeWhile isGap).reverse [] :=
      hR.gaps fun c hc => List.mem_takeWhile_imp (List.mem_reverse.mp hc)
    have hparts := hR.append (hR.append (hR.refl (st.out.dropWhile isGap).reverse) hgaps) hR.before
    rw [← List.reverse_append, List.takeWhile_append_dropWhile, List.append_nil] at hparts
    rw [List.reverse_cons, List.append_assoc]
    exact hparts

theorem code (st : StatementLines) (c : Char) (rest : Text) :
    R (st.out.reverse ++ [c]) ((st.code c rest).out.reverse ++ [c]) := by
  unfold StatementLines.code
  split
  · exact hR.refl _
  · exact hR.refl _
  · split <;> exact hR.refl _
  · unfold StatementLines.openBrace
    dsimp only
    split <;> exact hR.refl _
  · unfold StatementLines.closeBrace
    dsimp only
    split
    · exact hR.freshLine { st with braces := st.braces.tail }
    · exact hR.refl _
  · exact hR.refl _

/-- One character goes behind what has been written. -/
theorem feed {st : StatementLines} (hst : st.Pauses) (s : Seen Char) (rest : List (Seen Char)) :
    (st.feed s rest).Pauses ∧ R (st.out.reverse ++ [s.letter]) (st.feed s rest).out.reverse := by
  unfold StatementLines.feed
  split
  · rename_i hgap
    rw [Bool.and_eq_true] at hgap
    have hdrop := hR.append (hR.refl st.out.reverse) (hR.gap hgap.2)
    rw [List.append_nil] at hdrop
    exact ⟨hst, hdrop⟩
  · have hsettle := hR.append (hR.settle hst s.letter) (hR.refl [s.letter])
    have hpush (st' : StatementLines) : (st'.push s.letter).out.reverse = st'.out.reverse ++ [s.letter] :=
      List.reverse_cons
    dsimp only
    split
    · refine ⟨StatementLines.pauses_code_push (StatementLines.pending_settle st _) _ _, ?_⟩
      rw [hpush]
      exact hR.trans hsettle (hR.code _ _ _)
    · refine ⟨StatementLines.pauses_push (StatementLines.pending_settle st _) _, ?_⟩
      rw [hpush]
      exact hsettle

theorem run (seen : List (Seen Char)) {st : StatementLines} (hst : st.Pauses) :
    R (st.out.reverse ++ seen.map Seen.letter) (st.run seen).out.reverse := by
  induction seen generalizing st with
  | nil =>
    rw [List.map_nil, List.append_nil]
    exact hR.refl _
  | cons s rest ih =>
    obtain ⟨hpauses, hfeed⟩ := hR.feed hst s rest
    have hrest := hR.append hfeed (hR.refl (rest.map Seen.letter))
    rw [List.append_assoc, List.singleton_append] at hrest
    exact hR.trans hrest (ih hpauses)

/-- **A relation that such steps keep holds between a body and the body with one statement a line.** -/
theorem splitStatements (body : Text) : R body (splitStatements body) := by
  have hpauses : StatementLines.Pauses {} := fun hpending => by cases hpending
  have hrun := hR.run (scan body) hpauses
  rwa [map_letter_scan] at hrun

end Breaks

theorem trace_splitStatements (h : Lasting kept) (body : Text) :
    (splitStatements body).trace kept = body.trace kept := by
  have hbreaks : Breaks fun s s' => s'.trace kept = s.trace kept :=
    { refl := fun _ => rfl
      trans := fun hs ht => ht.trans hs
      append := fun hs ht => by rw [trace_append, trace_append, hs, ht]
      gap := fun hc => (h.trace_cons_blank (isBlank_of_isGap hc) []).symm
      behind := fun c _ => by rw [trace_cons, h.trace_cons_newline, trace_nil, List.append_nil]
      before := h.trace_cons_newline _ }
  exact hbreaks.splitStatements body

/-! ## Terminators -/

namespace Terminators

theorem out_inLiteral (st : Terminators) (q c : Char) :
    (st.inLiteral q c).out = c :: st.out ∧ (st.inLiteral q c).skipping = false := by
  unfold inLiteral
  dsimp only
  split
  · exact ⟨rfl, rfl⟩
  · split
    · exact ⟨rfl, rfl⟩
    · split <;> exact ⟨rfl, rfl⟩

/-- What comes of the line where the character `c` is read before `rest`. -/
inductive Reads (st : Terminators) (c : Char) (rest : Text) : Text → Prop where
  /-- The character is written. -/
  | write {st' : Terminators} (hout : st'.out = c :: st.out) (hskip : st'.skipping = false) :
      Reads st c rest (st'.walk (some c) rest)
  /-- A blank before a new statement is skipped. -/
  | skip (hskip : st.skipping = true) (hblank : isBlank c = true) : Reads st c rest (st.walk (some c) rest)
  /-- A line comment is copied. -/
  | comment : Reads st c rest (st.out.reverse ++ c :: rest)
  /-- A terminator ends the line. -/
  | finish (hc : c = ';') (hrest : ∀ d ∈ rest, isBlank d = true) : Reads st c rest st.out.reverse
  /-- A terminator before a comment or another one is dropped. -/
  | drop (hc : c = ';') (hahead : (rest.trimStart.startsWith "//" || rest.trimStart.head? == some ';') = true) :
      Reads st c rest (st.walk (some c) rest)
  /-- A terminator becomes the end of the line. -/
  | endLine (hc : c = ';') : Reads st c rest
      ({ st with out := '\n' :: st.out.dropWhile isBlank, skipping := true }.walk (some c) rest)

theorem reads_walk (st : Terminators) (before : Option Char) (c : Char) (rest : Text) :
    st.Reads c rest (st.walk before (c :: rest)) := by
  rw [walk]
  split
  · obtain ⟨hout, hskip⟩ := out_inLiteral st _ c
    exact .write hout hskip
  · split
    · rename_i hblank
      rw [Bool.and_eq_true] at hblank
      exact .skip hblank.1 hblank.2
    · split
      · exact .write rfl rfl
      · split
        · exact .comment
        · split
          · exact .write rfl rfl
          · split
            · exact .write rfl rfl
            · split
              · rename_i hc
                dsimp only
                split
                · rename_i hrest
                  rw [List.isEmpty_iff] at hrest
                  exact .finish hc.1 (List.dropWhile_eq_nil_iff.mp hrest)
                · split
                  · rename_i hahead
                    exact .drop hc.1 hahead
                  · exact .endLine hc.1
              · exact .write rfl rfl

end Terminators

/-- A relation between texts that holds where blanks and semicolons are dropped, and lines are begun for semicolons. -/
structure Sheds (R : Text → Text → Prop) : Prop where
  refl : ∀ s, R s s
  trans : ∀ {s t u}, R s t → R t u → R s u
  append : ∀ {s s' t t'}, R s s' → R t t' → R (s ++ t) (s' ++ t')
  blank : ∀ {c}, isBlank c = true → R [c] []
  semicolon : R [';'] []
  newline : R [';'] ['\n']

namespace Sheds

variable {R : Text → Text → Prop} (hR : Sheds R)

include hR

theorem blanks {s : Text} (h : ∀ c ∈ s, isBlank c = true) : R s [] := by
  induction s with
  | nil => exact hR.refl []
  | cons c s ih =>
    rw [List.forall_mem_cons] at h
    exact hR.append (hR.blank h.1) (ih h.2)

theorem reverse_dropWhile (s : Text) : R s.reverse (s.dropWhile isBlank).reverse := by
  have hblanks : R (s.takeWhile isBlank).reverse [] :=
    hR.blanks fun c hc => List.mem_takeWhile_imp (List.mem_reverse.mp hc)
  have hparts := hR.append (hR.refl (s.dropWhile isBlank).reverse) hblanks
  rwa [← List.reverse_append, List.takeWhile_append_dropWhile, List.append_nil] at hparts

/-- The rest of a line goes behind what has been written. -/
theorem walk (t : Text) (st : Terminators) (before : Option Char) :
    R (st.out.reverse ++ t) (st.walk before t) := by
  induction t generalizing st before with
  | nil =>
    rw [Terminators.walk, List.append_nil]
    exact hR.refl _
  | cons c rest ih =>
    have hreads := st.reads_walk before c rest
    generalize st.walk before (c :: rest) = out at hreads
    -- a character can be dropped where it stands for nothing
    have hdrop (hc : R [c] []) : R (st.out.reverse ++ c :: rest) (st.out.reverse ++ rest) :=
      hR.append (hR.refl _) (hR.append hc (hR.refl rest))
    cases hreads with
    | @write st' hout _ =>
      have hwalk := ih st' (some c)
      rwa [hout, List.reverse_cons, List.append_assoc, List.singleton_append] at hwalk
    | skip _ hblank => exact hR.trans (hdrop (hR.blank hblank)) (ih st _)
    | comment => exact hR.refl _
    | finish hc hrest =>
      have hblanks := hR.append (hR.refl st.out.reverse) (hR.blanks hrest)
      rw [List.append_nil] at hblanks
      exact hR.trans (hdrop (hc ▸ hR.semicolon)) hblanks
    | drop hc _ => exact hR.trans (hdrop (hc ▸ hR.semicolon)) (ih st _)
    | endLine hc =>
      refine hR.trans ?_ (ih _ _)
      rw [List.reverse_cons, List.append_assoc, List.singleton_append, hc]
      exact hR.append (hR.reverse_dropWhile st.out) (hR.append hR.newline (hR.refl rest))

theorem join_map {f : Text → Text} (hf : ∀ t, R t (f t)) (sep : Text) :
    ∀ ts : List Text, R (join sep ts) (join sep (ts.map f))
  | [] => hR.refl []
  | [t] => hf t
  | t :: u :: ts => by
    have ih := join_map hf sep (u :: ts)
    have hne : (u :: ts).map f ≠ [] := by simp
    rw [List.map_cons, join_cons hne, join_cons (List.cons_ne_nil u ts)]
    exact hR.append (hR.append (hf t) (hR.refl sep)) ih

/-- **A relation that such steps keep holds between a text and the text without its terminators.** -/
theorem stripTerminators (t : Text) : R t (stripTerminators t) := by
  have hjoin : join "\n" (t.pieces '\n') = t := join_pieces t
  have hlines := hR.join_map (fun line => hR.walk line {} none) "\n" (t.pieces '\n')
  rwa [hjoin] at hlines

end Sheds

theorem trace_stripTerminators (h : Lasting kept) (t : Text) :
    (stripTerminators t).trace kept = t.trace kept := by
  have hsheds : Sheds fun s s' => s'.trace kept = s.trace kept :=
    { refl := fun _ => rfl
      trans := fun hs ht => ht.trans hs
      append := fun hs ht => by rw [trace_append, trace_append, hs, ht]
      blank := fun hc => (h.trace_cons_blank hc []).symm
      semicolon := (h.trace_cons_semicolon []).symm
      newline := (h.trace_cons_newline []).trans (h.trace_cons_semicolon []).symm }
  exact hsheds.stripTerminators t

end GoDraft
