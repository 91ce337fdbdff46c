import GoDraft.Proofs.Java.FieldFindings

/-!
# GoDraft — fields and comments

A line comment between two lines of a class is meant to change nothing in its fields. Fields are looked
for in the text with its comments, though, and what is found is dropped only if it begins in a comment. So
a comment can matter in three ways: what begins before it can end behind its start, what begins in it can
end in the code of the next line, and the word `static` in it counts for the field of the next line.

* `FieldsApart` — nothing of the shape of a field reaches over a place;
* `EndsInCode` — whole lines of a text, the last of which ends in code;
* `findFields_insert_commentLine` — a comment that none of the three holds of changes nothing.
-/

namespace GoDraft

open Pattern

/-- A line comment with its line feed. -/
def commentLine (c : Text) : Text := '/' :: '/' :: (c ++ ['\n'])

/-- Nothing that is found of the shape of a field begins before an offset and ends behind it. -/
def FieldsApart (source : Text) (offset : Nat) : Prop :=
  ∀ m ∈ fieldPattern.findAll source, m.start < offset → m.stop ≤ offset

instance (source : Text) (offset : Nat) : Decidable (FieldsApart source offset) :=
  inferInstanceAs (Decidable (∀ m ∈ fieldPattern.findAll source, m.start < offset → m.stop ≤ offset))

/-- Whole lines of a text, at the end of which its scan is in code. -/
structure EndsInCode (pre : Text) : Prop where
  newline : pre.getLast? = some '\n'
  zone : (Scanner.start.after pre.bytes).zone = .code

/-! ## The scan before, in and behind a comment -/

section Scan

variable {pre post c : Text}

theorem mark_newlineByte : Marked.mark (10 : UInt8) = Mark.newline := rfl

theorem looksAhead_of_getLast?_newline {t : Text} (h : t.getLast? = some '\n') :
    ∀ b, t.bytes.getLast? = some b → (Marked.mark b).looksAhead = false := by
  obtain ⟨front, rfl⟩ := List.getLast?_eq_some_iff.mp h
  have hbytes : Text.bytes (front ++ ['\n']) = Text.bytes front ++ [10] := Text.bytes_append _ _
  intro b hb
  rw [hbytes, List.getLast?_concat, Option.some.injEq] at hb
  rw [← hb]
  rfl

namespace EndsInCode

/-- The state of a scan behind the lines. -/
theorem after_eq (h : EndsInCode pre) :
    ∃ d, Scanner.start.after pre.bytes = ⟨.code, d, none⟩ := by
  obtain ⟨front, rfl⟩ := List.getLast?_eq_some_iff.mp h.newline
  have hbytes : Text.bytes (front ++ ['\n']) = Text.bytes front ++ [10] := Text.bytes_append _ _
  have hzone := h.zone
  have hcarry := Scanner.carry_after_newline mark_newlineByte Scanner.start (Text.bytes front)
  rw [hbytes] at hzone ⊢
  generalize Scanner.start.after (Text.bytes front ++ [10]) = s at hzone hcarry
  obtain ⟨z, d, k⟩ := s
  obtain rfl : z = .code := hzone
  obtain rfl : k = none := hcarry
  exact ⟨d, rfl⟩

theorem scan_append (h : EndsInCode pre) (r : Text) :
    scan (pre ++ r).bytes = scan pre.bytes ++ (Scanner.start.after pre.bytes).run r.bytes := by
  rw [Text.bytes_append]
  exact Scanner.run_append (looksAhead_of_getLast?_newline h.newline)

/-- Before the end of the lines a scan does not see what follows them. -/
theorem isMemberAt_before (h : EndsInCode pre) {offset : Nat} (hlt : offset < pre.size) (r r' : Text) :
    isMemberAt (pre ++ r) offset = isMemberAt (pre ++ r') offset := by
  have hlength : offset < (scan pre.bytes).length := by
    rw [scan, Scanner.length_run, Text.length_bytes]
    exact hlt
  rw [isMemberAt_eq, isMemberAt_eq, h.scan_append, h.scan_append, List.getElem?_append_left hlength,
    List.getElem?_append_left hlength]

theorem isMemberAt_behind (h : EndsInCode pre) (r : Text) (k : Nat) :
    isMemberAt (pre ++ r) (pre.size + k) =
      ((Scanner.start.after pre.bytes).run r.bytes)[k]?.any Seen.isMember := by
  have hlength : (scan pre.bytes).length = pre.size := by
    rw [scan, Scanner.length_run, Text.length_bytes]
  rw [isMemberAt_eq, h.scan_append, List.getElem?_append_right (by omega), hlength,
    Nat.add_sub_cancel_left]

end EndsInCode

/-- A text without a line feed has no byte of one. -/
theorem mark_ne_newline_of_mem_bytes (hc : '\n' ∉ c) : ∀ b ∈ c.bytes, Marked.mark b ≠ .newline := by
  intro b hb hmark
  rcases Text.mark_of_mem_bytes hb with ⟨d, hd, hsame⟩ | hplain
  · have hnewline : d = '\n' := eq_of_mark (hsame ▸ hmark) (by decide)
    exact hc (hnewline ▸ hd)
  · rw [hmark] at hplain
    cases hplain

theorem bytes_commentLine (c : Text) : (commentLine c).bytes = 47 :: 47 :: (c.bytes ++ [10]) := by
  rw [commentLine]
  show 47 :: 47 :: Text.bytes (c ++ ['\n']) = _
  rw [Text.bytes_append]
  rfl

/-- A comment in code is told as such up to its line feed, and leaves the scan as it was. -/
theorem run_commentLine_append (hc : '\n' ∉ c) (d : Nat) (post : Text) :
    (Scanner.mk .code d none).run (commentLine c ++ post).bytes =
      ((47 :: 47 :: c.bytes).map (fun b => (⟨b, .lineComment, d⟩ : Seen UInt8)) ++ [⟨10, .code, d⟩]) ++
        (Scanner.mk .code d none).run post.bytes := by
  have hslash : Marked.mark (47 : UInt8) = Mark.slash := rfl
  obtain ⟨hrun, hafter⟩ :=
    Scanner.run_commentLine d hslash hslash mark_newlineByte (mark_ne_newline_of_mem_bytes hc)
  have hlast : (commentLine c).getLast? = some '\n' :=
    List.getLast?_eq_some_iff.mpr ⟨'/' :: '/' :: c, rfl⟩
  rw [Text.bytes_append, Scanner.run_append (looksAhead_of_getLast?_newline hlast), bytes_commentLine, hrun,
    hafter]

namespace EndsInCode

theorem isMemberAt_comment (h : EndsInCode pre) (hc : '\n' ∉ c) (post : Text) {k : Nat}
    (hk : k + 1 < (commentLine c).size) : isMemberAt (pre ++ (commentLine c ++ post)) (pre.size + k) = false := by
  obtain ⟨d, hstate⟩ := h.after_eq
  have hsize : (commentLine c).size = c.bytes.length + 3 := by
    rw [← Text.length_bytes, bytes_commentLine]
    simp
  have hlt : k < (47 :: 47 :: c.bytes).length := by
    simp only [List.length_cons]
    omega
  rw [h.isMemberAt_behind, hstate, run_commentLine_append hc, List.append_assoc,
    List.getElem?_append_left (by rw [List.length_map]; exact hlt), List.getElem?_map,
    List.getElem?_eq_getElem hlt]
  simp [Seen.isMember, Zone.isCode]

theorem isMemberAt_behind_comment (h : EndsInCode pre) (hc : '\n' ∉ c) (post : Text) (k : Nat) :
    isMemberAt (pre ++ (commentLine c ++ post)) (pre.size + (commentLine c).size + k) =
      isMemberAt (pre ++ post) (pre.size + k) := by
  obtain ⟨d, hstate⟩ := h.after_eq
  have hsize : (commentLine c).size = c.bytes.length + 3 := by
    rw [← Text.length_bytes, bytes_commentLine]
    simp
  rw [Nat.add_assoc, h.isMemberAt_behind, h.isMemberAt_behind, hstate, run_commentLine_append hc,
    List.getElem?_append_right (by simp; omega)]
  congr 2
  simp
  omega

end EndsInCode

end Scan

/-! ## The matches before, in and behind a comment -/

section Matches

variable {pre post c y z : Text} {m m' : Match}

/-- What ends no later than some lines ends before their last line feed. -/
theorem stop_lt_of_stop_le (hy : y.getLast? = some '\n') (hm : m ∈ fieldPattern.findAll (y ++ z))
    (hstop : m.stop ≤ y.size) : m.stop < y.size := by
  obtain ⟨u, s, rest, g, hsplit, hs, hfits, -, hend⟩ := (exists_of_mem_findAllFrom hm).exists_fits
  apply Nat.lt_of_le_of_ne hstop
  intro hsize
  rw [hend, Nat.zero_add, ← Text.size_append] at hsize
  rw [← List.append_assoc] at hsplit
  obtain ⟨rfl, -⟩ := Text.append_inj_of_size_eq hsplit hsize.symm
  rw [List.getLast?_append_of_ne_nil u hs, getLast?_of_fits_fieldPattern hfits] at hy
  exact absurd hy (by decide)

theorem FieldsApart.stop_lt (h : FieldsApart (y ++ z) y.size) (hy : y.getLast? = some '\n') :
    ∀ m ∈ fieldPattern.findAll (y ++ z), m.start < y.size → m.stop < y.size :=
  fun m hm hstart => stop_lt_of_stop_le hy hm (h m hm hstart)

/-- A match before the comment is taken for the same with and without it. -/
theorem exists_fieldFinding_before (h : EndsInCode pre) (r r' : Text) (hlike : m.Like 0 m')
    (hm : m ∈ fieldPattern.findAll (pre ++ r)) (hstart : m.start < pre.size) :
    ∃ x x', fieldFinding (pre ++ r) m = .ok x ∧ fieldFinding (pre ++ r') m' = .ok x' ∧
      x'.field? = x.field? := by
  obtain ⟨u, s, rest, -, hsplit, -, -, hu, -⟩ := (exists_of_mem_findAllFrom hm).exists_fits
  rw [Nat.zero_add] at hu
  obtain ⟨w, hw⟩ : ∃ w, pre = u ++ w := by
    rw [hu] at hstart
    obtain ⟨w, hw⟩ := Text.exists_of_size_le hsplit (Nat.le_of_lt hstart)
    rw [hw, ← List.append_assoc] at hsplit
    exact ⟨w, List.append_cancel_right hsplit⟩
  have hfront (r : Text) : pre ++ r = u ++ (w ++ r) := by rw [hw, List.append_assoc]
  obtain ⟨x, hx, hfield⟩ := exists_fieldFinding (hfront r) hu
  obtain ⟨x', hx', hfield'⟩ := exists_fieldFinding (m := m') (hfront r') (hlike.start.trans hu)
  refine ⟨x, x', hx, hx', ?_⟩
  rw [hfield, hfield', fieldOf_like hlike, h.isMemberAt_before (hu ▸ hstart) r r']

/-- A match in the comment is no field. -/
theorem exists_fieldFinding_comment (h : EndsInCode pre) (hc : '\n' ∉ c)
    (hm : m ∈ fieldPattern.findAllFrom (lastOf none pre) pre.size 0 (commentLine c ++ post))
    (hstart : m.start < pre.size + (commentLine c).size) :
    ∃ x, fieldFinding (pre ++ (commentLine c ++ post)) m = .ok x ∧ x.field? = none := by
  obtain ⟨u, rest, hsplit, hmatch, -⟩ := exists_of_mem_findAllFrom hm
  obtain ⟨hspan, -, -⟩ := fits_of_matchAt? hmatch
  have hu : m.start = pre.size + u.size := congrArg Cursor.offset hspan
  rw [hu] at hstart
  obtain ⟨w, rfl⟩ := Text.exists_of_size_le hsplit (by omega)
  have hline : '/' :: '/' :: c ++ ['\n'] = u ++ w := by
    rw [← List.append_assoc] at hsplit
    exact List.append_cancel_right hsplit
  -- no field begins with the line feed at the end of the comment
  have hinside : u.size + 1 < (commentLine c).size := by
    have hsize : (commentLine c).size = Text.size ('/' :: '/' :: c) + 1 :=
      Text.size_append ('/' :: '/' :: c) ['\n']
    by_contra hlast
    obtain rfl : u = '/' :: '/' :: c := by
      have := Text.append_inj_of_size_eq hline (by omega)
      exact this.1.symm
    obtain rfl : w = ['\n'] := (List.append_cancel_left hline).symm
    rw [matchAt?_eq_none_iff.mpr (fieldPattern_rejects_newline _ rfl)] at hmatch
    exact absurd hmatch (by simp)
  have hsource : pre ++ (commentLine c ++ post) = pre ++ u ++ (w ++ post) := by
    rw [hsplit, List.append_assoc]
  obtain ⟨x, hx, hfield⟩ := exists_fieldFinding hsource (hu.trans (Text.size_append pre u).symm)
  refine ⟨x, hx, ?_⟩
  rw [hfield, Text.size_append, h.isMemberAt_comment hc post hinside, Bool.and_false]
  rfl

/-- A match behind the comment is taken for the same with and without it. -/
theorem exists_fieldFinding_behind (h : EndsInCode pre) (hc : '\n' ∉ c)
    (hstatic : followsStatic pre pre.size = .ok false)
    (hstatic' : followsStatic (pre ++ commentLine c) (pre ++ commentLine c).size = .ok false)
    (hlike : m.Like (commentLine c).size m')
    (hm : m ∈ fieldPattern.findAllFrom (lastOf none pre) pre.size 0 post) :
    ∃ x x', fieldFinding (pre ++ post) m = .ok x ∧
      fieldFinding (pre ++ (commentLine c ++ post)) m' = .ok x' ∧ x'.field? = x.field? := by
  obtain ⟨u, rest, rfl, hmatch, -⟩ := exists_of_mem_findAllFrom hm
  obtain ⟨hspan, -, -⟩ := fits_of_matchAt? hmatch
  have hu : m.start = pre.size + u.size := congrArg Cursor.offset hspan
  have hlook {y : Text} (hy : followsStatic y y.size = .ok false) :
      (lookback y).hasPart "static" = false := by
    have happend := followsStatic_append y []
    rw [List.append_nil, hy, Except.ok.injEq] at happend
    exact happend.symm
  have hline : (pre ++ commentLine c).getLast? = some '\n' :=
    List.getLast?_eq_some_iff.mpr ⟨pre ++ '/' :: '/' :: c, by rw [List.append_assoc]; rfl⟩
  have hsource : pre ++ (u ++ rest) = pre ++ u ++ rest := (List.append_assoc pre u rest).symm
  have hsource' : pre ++ (commentLine c ++ (u ++ rest)) = pre ++ commentLine c ++ u ++ rest := by
    rw [List.append_assoc, List.append_assoc]
  have hstart' : m'.start = (pre ++ commentLine c ++ u).size := by
    rw [hlike.start, hu, Text.size_append, Text.size_append]
    omega
  obtain ⟨x, hx, hfield⟩ := exists_fieldFinding hsource (hu.trans (Text.size_append pre u).symm)
  obtain ⟨x', hx', hfield'⟩ := exists_fieldFinding hsource' hstart'
  refine ⟨x, x', hx, hx', ?_⟩
  -- no `static` before the comment, in it or over a line feed counts, and both are members or neither is
  rw [hfield, hfield', fieldOf_like hlike, hasPart_lookback_append u h.newline (hlook hstatic),
    hasPart_lookback_append u hline (hlook hstatic'), Text.size_append, Text.size_append, Text.size_append,
    h.isMemberAt_behind_comment hc]

end Matches

/-- **A comment line changes no field**, unless something of the shape of a field reaches over the place
of the comment or out of the comment, or `static` stands in the comment or before it near enough to count
for the next line. -/
theorem findFields_insert_commentLine (pre c post : Text) (h : EndsInCode pre) (hc : '\n' ∉ c)
    (hplain : FieldsApart (pre ++ post) pre.size)
    (hbefore : FieldsApart (pre ++ (commentLine c ++ post)) pre.size)
    (hbehind : FieldsApart (pre ++ (commentLine c ++ post)) (pre ++ commentLine c).size)
    (hstatic : followsStatic pre pre.size = .ok false)
    (hstatic' : followsStatic (pre ++ commentLine c) (pre ++ commentLine c).size = .ok false) :
    findFields (pre ++ (commentLine c ++ post)) = findFields (pre ++ post) := by
  have hline : (pre ++ commentLine c).getLast? = some '\n' :=
    List.getLast?_eq_some_iff.mpr ⟨pre ++ '/' :: '/' :: c, by rw [List.append_assoc]; rfl⟩
  have hlast : ∀ {y : Text} (b : Option Char), y.getLast? = some '\n' → lastOf b y = some '\n' := by
    intro y b hy
    rw [lastOf, hy]
    rfl
  -- both searches find the same before the comment
  have has₀ := hplain.stop_lt h.newline
  have has₀' := hbefore.stop_lt h.newline
  rw [findAll, ← Nat.zero_add pre.size] at has₀ has₀'
  obtain ⟨as, as', has, has', haslike, hasstart⟩ := findAllFrom_common (Nat.zero_le _) has₀ has₀'
  rw [Nat.zero_add] at has has' hasstart
  -- the search of the longer text goes through the comment
  have hbs₀ : ∀ m ∈ fieldPattern.findAllFrom (lastOf none pre) pre.size 0 (commentLine c ++ post),
      m.start < pre.size + (commentLine c).size → m.stop < pre.size + (commentLine c).size := by
    intro m hm
    rw [← List.append_assoc] at hbehind
    rw [← Text.size_append]
    apply hbehind.stop_lt hline
    rw [List.append_assoc, findAll, has']
    exact List.mem_append_right as' hm
  obtain ⟨bs, -, hbs, -, -, hbsstart⟩ := findAllFrom_common (Nat.zero_le _) hbs₀ hbs₀
  have hbsmem : ∀ m ∈ bs, m ∈ fieldPattern.findAllFrom (lastOf none pre) pre.size 0 (commentLine c ++ post) :=
    fun m hm => hbs ▸ List.mem_append_left _ hm
  -- and behind it both find the same again
  have hcslike := findAllFrom_shift (p := fieldPattern) (commentLine c).size post (lastOf none pre) pre.size 0
  have hcs : lastOf (lastOf none pre) (commentLine c) = lastOf none pre := by
    rw [← lastOf_append, hlast none hline, hlast none h.newline]
  rw [hcs] at hbs
  obtain ⟨fs, hfs, hfs'⟩ := Yields.exists_of_like haslike fun m hm m' hlike =>
    exists_fieldFinding_before h post (commentLine c ++ post) hlike
      (by rw [findAll, has]; exact List.mem_append_left _ hm) (hasstart m hm)
  obtain ⟨gs, hgs, hgs'⟩ := Yields.exists_of_like hcslike fun m hm m' hlike =>
    exists_fieldFinding_behind h hc hstatic hstatic' hlike hm
  have hnone : Yields (pre ++ (commentLine c ++ post)) bs [] :=
    Yields.none_of_forall fun m hm => exists_fieldFinding_comment h hc (hbsmem m hm) (hbsstart m hm)
  have hyields : Yields (pre ++ post) (fieldPattern.findAll (pre ++ post)) (fs ++ gs) := by
    rw [findAll, has]
    exact hfs.append hgs
  have hyields' : Yields (pre ++ (commentLine c ++ post))
      (fieldPattern.findAll (pre ++ (commentLine c ++ post))) (fs ++ ([] ++ gs)) := by
    rw [findAll, has', hbs]
    exact hfs'.append (hnone.append hgs')
  rw [hyields.findFields_eq, hyields'.findFields_eq, List.nil_append]

/-- A field that is commented out between two others. -/
theorem findFields_commentedField :
    FieldsApart ("class A \x7b\nint x;\n" ++ (commentLine " int old = 3;" ++ "int y;\n\x7d")) 17 ∧
      findFields ("class A \x7b\nint x;\n" ++ (commentLine " int old = 3;" ++ "int y;\n\x7d")) =
        findFields ("class A \x7b\nint x;\n" ++ "int y;\n\x7d") := by
  refine ⟨by decide, findFields_insert_commentLine "class A \x7b\nint x;\n" " int old = 3;" "int y;\n\x7d"
    ⟨by decide, by decide⟩ (by decide) (by decide) (by decide) (by decide) (by decide) (by decide)⟩

/-- A comment that ends in `final` takes the field of the next line with it. -/
theorem findFields_trailingComment_ne :
    findFields ("class A \x7b\n" ++ (commentLine " not final" ++ "int y;\n\x7d")) = .ok [] ∧
      findFields ("class A \x7b\n" ++ "int y;\n\x7d") = .ok [⟨.unmarked, "int", "y", none⟩] := by
  constructor <;> decide

end GoDraft
