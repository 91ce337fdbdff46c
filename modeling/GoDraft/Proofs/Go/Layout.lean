import GoDraft.Command.Run
import GoDraft.Proofs.Text.Lines
import GoDraft.Proofs.Text.Trim
import Mathlib.Data.List.Basic

/-!
# GoDraft — the layout of a text is canonical

Laying out reads nothing of a text but its lines without the blanks at their ends, and writes these lines
again, each behind as many tabs as braces are open. So the layout of a text tells its trimmed lines, and they
tell the layout.

* `Text.trimmedLines` — what is read;
* `trimmedLines_layoutFrom` — what is written holds the same lines;
* `reindent_canonical` — texts have one layout exactly when they have the same trimmed lines, and laying out
  again, with trimming or without, changes nothing.
-/

namespace GoDraft

/-! ## Trimmed lines -/

/-- The lines of a text without the blanks at their ends. -/
def Text.trimmedLines (t : Text) : List Text := t.lines.map Text.trim

namespace Text

theorem trim_dropLastChar_return (t : Text) : trim (dropLastChar '\r' t) = t.trim := by
  rw [dropLastChar]
  split
  · rename_i hlast
    have hblank : ∀ c ∈ ['\r'], GoDraft.isBlank c = true := by decide
    have ht : t.dropLast ++ ['\r'] = t := List.dropLast_append_getLast? '\r' hlast
    conv => rhs; rw [← ht]
    exact (trim_append_blanks _ hblank).symm
  · rfl

theorem trimmedLines_append_newline {s : Text} (h : '\n' ∉ s) (t : Text) :
    trimmedLines (s ++ '\n' :: t) = s.trim :: t.trimmedLines := by
  rw [trimmedLines, lines_append_newline h, List.map_cons, trim_dropLastChar_return]
  rfl

theorem trimmedLines_of_pieces {t p : Text} {ps : List Text} (h : t.pieces '\n' = ps ++ [p]) :
    t.trimmedLines = ps.map trim ++ if p.isEmpty then [] else [p.trim] := by
  rw [trimmedLines, lines, h, linesOfPieces_concat, List.map_append, List.map_map]
  congr 1
  · exact List.map_congr_left fun q _ => trim_dropLastChar_return q
  · split <;> rfl

/-- In a text whose last character is no blank, every piece is a line. -/
theorem trimmedLines_eq_map_pieces {t : Text} {d : Char} (hlast : t.getLast? = some d)
    (hd : GoDraft.isBlank d = false) : t.trimmedLines = (t.pieces '\n').map trim := by
  have hne : d ≠ '\n' := by
    rintro rfl
    cases hd
  obtain ⟨ps, p, hps⟩ := exists_pieces_eq_concat hne hlast
  rw [trimmedLines_of_pieces hps, hps, if_neg (by simp), List.map_append]
  rfl

/-- A line feed at the end of a text ends its last line and begins none. -/
theorem trimmedLines_concat_newline (t : Text) : trimmedLines (t ++ ['\n']) = (t.pieces '\n').map trim := by
  have hpieces : pieces '\n' (t ++ ['\n']) = t.pieces '\n' ++ [[]] := pieces_append_sep t []
  rw [trimmedLines_of_pieces hpieces, if_pos (by rfl), List.append_nil]

end Text

/-- A line as it is laid out: trimmed, and one line. -/
structure IsTrimmedLine (line : Text) : Prop where
  head : line.head?.any isBlank = false
  last : line.getLast?.any isBlank = false
  oneLine : '\n' ∉ line

theorem isTrimmedLine_of_mem_trimmedLines {t : Text} : ∀ line ∈ t.trimmedLines, IsTrimmedLine line := by
  intro line hline
  obtain ⟨l, hl, rfl⟩ := List.mem_map.mp hline
  obtain ⟨-, -, -, -, -, hhead, hlast⟩ := l.exists_trim
  exact ⟨hhead, hlast, fun h => Text.newline_notMem_of_mem_lines l hl (Text.mem_of_mem_trim h)⟩

/-! ## What is laid out -/

/-- The indentation of a level. -/
def tabs (level : Nat) : Text := (List.replicate level layoutUnit).flatten

theorem eq_tab_of_mem_tabs {level : Nat} : ∀ c ∈ tabs level, c = '\t' := by
  intro c hc
  obtain ⟨u, hu, hc⟩ := List.mem_flatten.mp hc
  obtain rfl := List.eq_of_mem_replicate hu
  exact List.mem_singleton.mp hc

theorem layoutFrom_nil_cons (level : Nat) (rest : List Text) :
    layoutFrom level ([] :: rest) = '\n' :: layoutFrom level rest := rfl

/-- The level of a line, one further out where the line closes a block. -/
def lineLevel (level : Nat) (line : Text) : Nat := if line.head? = some '}' then level - 1 else level

/-- The level behind a line, one further in where the line opens a block. -/
def nextLevel (level : Nat) (line : Text) : Nat :=
  if line.getLast? = some '{' then lineLevel level line + 1 else lineLevel level line

theorem lineLevel_le (level : Nat) (line : Text) : lineLevel level line ≤ level := by
  unfold lineLevel
  split <;> omega

theorem layoutFrom_cons (level : Nat) {line : Text} (hne : line ≠ []) (rest : List Text) :
    layoutFrom level (line :: rest) =
      tabs (lineLevel level line) ++ (line ++ '\n' :: layoutFrom (nextLevel level line) rest) := by
  rw [layoutFrom, if_neg (by simpa using hne)]
  simp only [List.append_assoc]
  rfl

/-- **What is laid out holds the lines it was made from.** -/
theorem trimmedLines_layoutFrom (level : Nat) {lines : List Text} (h : ∀ line ∈ lines, IsTrimmedLine line) :
    (layoutFrom level lines).trimmedLines = lines := by
  induction lines generalizing level with
  | nil => rfl
  | cons line rest ih =>
    rw [List.forall_mem_cons] at h
    obtain ⟨hline, hrest⟩ := h
    by_cases hne : line = []
    · subst hne
      have hempty := Text.trimmedLines_append_newline (s := []) List.not_mem_nil (layoutFrom level rest)
      rw [layoutFrom_nil_cons]
      exact hempty.trans (congrArg _ (ih level hrest))
    · have hone : '\n' ∉ tabs (lineLevel level line) ++ line := by
        rw [List.mem_append, not_or]
        exact ⟨fun hmem => absurd (eq_tab_of_mem_tabs _ hmem) (by decide), hline.oneLine⟩
      have htrim : Text.trim (tabs (lineLevel level line) ++ (line ++ [])) = line :=
        trim_of_ends (fun c hc => eq_tab_of_mem_tabs c hc ▸ by decide) (by simp) hline.head hline.last
      rw [List.append_nil] at htrim
      rw [layoutFrom_cons level hne, ← List.append_assoc, Text.trimmedLines_append_newline hone, htrim,
        ih _ hrest]

theorem trimmedLines_reindent (t : Text) : (reindent t).trimmedLines = t.trimmedLines :=
  trimmedLines_layoutFrom 0 isTrimmedLine_of_mem_trimmedLines

theorem reindent_congr {s t : Text} (h : s.trimmedLines = t.trimmedLines) : reindent s = reindent t :=
  congrArg (layoutFrom 0) h

/-! ## Trimming what is laid out -/

/-- What is laid out ends with its last line. -/
theorem exists_layoutFrom_concat {line : Text} (hne : line ≠ []) :
    ∀ (lines : List Text) (level : Nat), ∃ front, layoutFrom level (lines ++ [line]) = front ++ (line ++ ['\n'])
  | [], level => ⟨tabs (lineLevel level line), layoutFrom_cons level hne []⟩
  | first :: lines, level => by
    by_cases hfirst : first = []
    · subst hfirst
      obtain ⟨front, hfront⟩ := exists_layoutFrom_concat hne lines level
      exact ⟨'\n' :: front, by rw [List.cons_append, layoutFrom_nil_cons, hfront, List.cons_append]⟩
    · obtain ⟨front, hfront⟩ := exists_layoutFrom_concat hne lines (nextLevel level first)
      refine ⟨tabs (lineLevel level first) ++ (first ++ '\n' :: front), ?_⟩
      rw [List.cons_append, layoutFrom_cons level hfirst, hfront]
      simp

/-- What is laid out begins with its first line, which no brace before it indents. -/
theorem head?_layoutFrom_zero {line : Text} (hne : line ≠ []) (rest : List Text) :
    (layoutFrom 0 (line :: rest)).head? = line.head? := by
  rw [layoutFrom_cons 0 hne, Nat.le_zero.mp (lineLevel_le 0 line)]
  obtain ⟨c, s, rfl⟩ := List.exists_cons_of_ne_nil hne
  rfl

/-- Trimming a layout whose first and last lines are not empty takes its last line feed away. -/
theorem trimmedLines_trim_layoutFrom {first last : Text} {lines between : List Text}
    (hfirst : lines = first :: between) (hlast : ∃ front, lines = front ++ [last]) (hfirst_ne : first ≠ [])
    (hlast_ne : last ≠ []) (h : ∀ line ∈ lines, IsTrimmedLine line) :
    (layoutFrom 0 lines).trim.trimmedLines = (layoutFrom 0 lines).trimmedLines := by
  have hfirst_mem : first ∈ lines := hfirst ▸ List.mem_cons_self
  obtain ⟨before, hbefore⟩ := hlast
  have hlast_mem : last ∈ lines := by simp [hbefore]
  obtain ⟨front, hfront⟩ := exists_layoutFrom_concat hlast_ne before 0
  rw [← hbefore, ← List.append_assoc] at hfront
  obtain ⟨d, hd⟩ := Option.isSome_iff_exists.mp (List.getLast?_isSome.mpr hlast_ne)
  have hd_blank : isBlank d = false := by
    have hends := (h last hlast_mem).last
    rwa [hd] at hends
  have hd_last : (front ++ last).getLast? = some d := by
    rw [List.getLast?_append, hd]
    rfl
  have hhead : (front ++ last).head?.any isBlank = false := by
    have hhead := (h first hfirst_mem).head
    rw [← head?_layoutFrom_zero hfirst_ne between, ← hfirst, hfront] at hhead
    cases hne : front ++ last with
    | nil => rfl
    | cons c s =>
      rw [hne] at hhead
      exact hhead
  -- both ends are no blanks, so only the line feed goes
  have htrim : (layoutFrom 0 lines).trim = front ++ last := by
    have hnone : ∀ c ∈ ([] : Text), isBlank c = true := by simp
    rw [hfront]
    exact trim_of_ends hnone (by decide) hhead (by rw [hd_last]; exact hd_blank)
  rw [htrim, Text.trimmedLines_eq_map_pieces hd_last hd_blank, hfront, Text.trimmedLines_concat_newline]

/-- The first and the last line of a trimmed text are not empty. -/
theorem exists_ends_trimmedLines {t : Text} (hne : t ≠ []) (hhead : t.head?.any isBlank = false)
    (hlast : t.getLast?.any isBlank = false) :
    ∃ first between before last, t.trimmedLines = first :: between ∧ t.trimmedLines = before ++ [last] ∧
      first ≠ [] ∧ last ≠ [] := by
  obtain ⟨d, hd⟩ := Option.isSome_iff_exists.mp (List.getLast?_isSome.mpr hne)
  have hd_blank : isBlank d = false := by rwa [hd] at hlast
  have hd_ne : d ≠ '\n' := by
    rintro rfl
    cases hd_blank
  obtain ⟨ps, p, hps⟩ := Text.exists_pieces_eq_concat hd_ne hd
  have hlines := Text.trimmedLines_eq_map_pieces hd hd_blank
  obtain ⟨c, s, rfl⟩ := List.exists_cons_of_ne_nil hne
  have hc : isBlank c = false := hhead
  have hc_ne : c ≠ '\n' := by
    rintro rfl
    cases hc
  obtain ⟨q, qs, hqs⟩ := List.exists_cons_of_ne_nil (Text.pieces_ne_nil '\n' s)
  refine ⟨Text.trim (c :: q), qs.map Text.trim, ps.map Text.trim, Text.trim (p ++ [d]), ?_, ?_,
    Text.trim_ne_nil List.mem_cons_self hc, Text.trim_ne_nil (by simp) hd_blank⟩
  · rw [hlines, Text.pieces_cons_ne hc_ne hqs, List.map_cons]
  · rw [hlines, hps, List.map_append, List.map_cons, List.map_nil]

theorem trimmedLines_trim_reindent_trim (t : Text) :
    (reindent t.trim).trim.trimmedLines = (reindent t.trim).trimmedLines := by
  obtain ⟨-, -, -, -, -, hhead, hlast⟩ := t.exists_trim
  by_cases hne : t.trim = []
  · rw [hne]
    rfl
  · obtain ⟨first, between, before, last, hfirst, hbefore, hfirst_ne, hlast_ne⟩ :=
      exists_ends_trimmedLines hne hhead hlast
    exact trimmedLines_trim_layoutFrom hfirst ⟨before, hbefore⟩ hfirst_ne hlast_ne
      isTrimmedLine_of_mem_trimmedLines

theorem reindent_trim_reindent_trim (t : Text) : reindent (reindent t.trim).trim = reindent t.trim :=
  reindent_congr ((trimmedLines_trim_reindent_trim t).trans (trimmedLines_reindent t.trim))

/-- A text that is not blank is not laid out to a blank one. -/
theorem isBlank_reindent_trim {t : Text} (h : t.isBlank = false) : (reindent t.trim).isBlank = false := by
  obtain ⟨c, hc, hc_blank⟩ := List.all_eq_false.mp h
  have hne : t.trim ≠ [] := Text.trim_ne_nil hc (Bool.eq_false_iff.mpr hc_blank)
  obtain ⟨-, -, -, -, -, hhead, hlast⟩ := t.exists_trim
  obtain ⟨first, between, -, -, hfirst, -, hfirst_ne, -⟩ := exists_ends_trimmedLines hne hhead hlast
  have hmem : first ∈ t.trim.trimmedLines := hfirst ▸ List.mem_cons_self
  obtain ⟨d, s, rfl⟩ := List.exists_cons_of_ne_nil hfirst_ne
  have hd_blank : isBlank d = false := (isTrimmedLine_of_mem_trimmedLines _ hmem).head
  have hd : (reindent t.trim).head? = some d := by
    show (layoutFrom 0 t.trim.trimmedLines).head? = some d
    rw [hfirst, head?_layoutFrom_zero hfirst_ne]
    rfl
  exact List.all_eq_false.mpr ⟨d, List.mem_of_head? hd, Bool.eq_false_iff.mp hd_blank⟩

/-- What is printed for a file that can be read. -/
theorem stdout_layoutFile {f : Folder} {path : Path} {t : Text} (h : f.readText path = .ok t) :
    (layoutFile f path false).stdout = if t.isBlank then [] else reindent t.trim := by
  rw [layoutFile, h]
  dsimp only
  split <;> rfl

/-- **The layout of a text is canonical.** It holds the trimmed lines of the text; two texts have the same
layout exactly when they have the same trimmed lines; and laying out again changes nothing, whether what was
laid out is trimmed before or not. So a file that holds what was printed for a file is printed as it is. -/
theorem reindent_canonical :
    (∀ t : Text, (reindent t).trimmedLines = t.trimmedLines) ∧
    (∀ s t : Text, reindent s = reindent t ↔ s.trimmedLines = t.trimmedLines) ∧
    (∀ t : Text, reindent (reindent t) = reindent t) ∧
    (∀ t : Text, reindent (reindent t.trim).trim = reindent t.trim) ∧
    ∀ (f g : Folder) (path : Path) (t : Text), f.readText path = .ok t →
      g.readText path = .ok (layoutFile f path false).stdout →
      (layoutFile g path false).stdout = (layoutFile f path false).stdout := by
  refine ⟨trimmedLines_reindent, fun s t => ⟨fun h => ?_, reindent_congr⟩, fun t => ?_,
    reindent_trim_reindent_trim, fun f g path t hf hg => ?_⟩
  · rw [← trimmedLines_reindent s, h, trimmedLines_reindent]
  · exact reindent_congr (trimmedLines_reindent t)
  · rw [stdout_layoutFile hg, stdout_layoutFile hf]
    by_cases hblank : t.isBlank = true
    · rw [if_pos hblank]
      rfl
    · rw [if_neg hblank, isBlank_reindent_trim (Bool.eq_false_iff.mpr hblank)]
      exact reindent_trim_reindent_trim t

/-- A folder with one Go file. -/
def goFile (text : Text) : Folder := .file "a.go" text.bytes .empty

/-- A block with spaces and carriage returns, and then the layout that was printed for it. -/
theorem reindent_canonical_block :
    (goFile "if a \x7b\r\n  b\n \x7d").readText "a.go" = .ok "if a \x7b\r\n  b\n \x7d".toList ∧
    (goFile "if a \x7b\n\tb\n\x7d\n").readText "a.go" = .ok "if a \x7b\n\tb\n\x7d\n".toList ∧
    (layoutFile (goFile "if a \x7b\n\tb\n\x7d\n") "a.go" false).stdout = "if a \x7b\n\tb\n\x7d\n".toList := by
  have hread : (goFile "if a \x7b\r\n  b\n \x7d").readText "a.go" = .ok "if a \x7b\r\n  b\n \x7d".toList := by
    rfl
  have hprinted : (layoutFile (goFile "if a \x7b\r\n  b\n \x7d") "a.go" false).stdout
      = "if a \x7b\n\tb\n\x7d\n".toList := by decide
  have hlaidOut : (goFile "if a \x7b\n\tb\n\x7d\n").readText "a.go" = .ok "if a \x7b\n\tb\n\x7d\n".toList := by
    rfl
  refine ⟨hread, hlaidOut, ?_⟩
  rw [← hprinted] at hlaidOut ⊢
  exact reindent_canonical.2.2.2.2 _ _ _ _ hread hlaidOut

/-- Tabs, spaces and carriage returns around the lines make no difference. -/
example : reindent "if a \x7b\r\n\t\tb\n\x7d" = reindent "  if a \x7b\n    b  \n\t\x7d\n" := by decide

end GoDraft
