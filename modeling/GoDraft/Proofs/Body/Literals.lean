import GoDraft.Proofs.Body.KeywordRules
import GoDraft.Proofs.Body.Layout
import GoDraft.Proofs.Body.Loads
import GoDraft.Proofs.Pattern.Local
import GoDraft.Proofs.Pattern.Passes
import GoDraft.Proofs.Scan.Walks

/-!
# GoDraft — printing a string literal

A statement that prints a string literal should become the same statement in Go, with the literal as it
stands. Putting statements on lines and dropping terminators know literals and leave this one alone. The
passes between them do not: to them the content of a literal is text like any other.

The pass for printing ends a call at the first closing parenthesis with a semicolon, which may stand in the
content. Every pass behind it makes a text lighter wherever it changes it, and nothing makes the text heavier
again. So the literal comes through exactly if the call ends at its own end and each of these passes has
nothing to do.

* `javaPrint`, `goPrint`, `IsContent` — the two statements;
* `splitStatements_javaPrint`, `stripTerminators_goPrint` — the readings that know literals;
* `apply_printLineRule_javaPrint` — where the call ends;
* `load_run_lt_of_callEnd` — an end inside the literal is not made up for;
* `recast_javaPrint_eq_iff` — when the literal comes through.
-/

namespace GoDraft

open Text

/-! ## Statements that print a literal -/

/-- A string literal. -/
def quoted (c : Text) : Text := '"' :: (c ++ ['"'])

/-- The Java statement that prints a literal. -/
def javaPrint (c : Text) : Text := "System.out.println(" ++ quoted c ++ ");"

/-- The Go statement that prints a literal. -/
def goPrint (c : Text) : Text := "fmt.Println(" ++ quoted c ++ ")"

theorem javaPrint_eq (c : Text) :
    javaPrint c = "System.out.println(".toList ++ '"' :: (c ++ ['"', ')', ';']) := by
  have hend : ");".toList = [')', ';'] := by decide
  unfold javaPrint quoted
  rw [hend, List.append_assoc, List.cons_append, List.append_assoc, List.singleton_append]

theorem goPrint_eq (c : Text) : goPrint c = "fmt.Println(".toList ++ '"' :: (c ++ ['"', ')']) := by
  have hend : ")".toList = [')'] := by decide
  unfold goPrint quoted
  rw [hend, List.append_assoc, List.cons_append, List.append_assoc, List.singleton_append]

/-- Content of a literal without quotes, escapes and line feeds. -/
def IsContent (c : Text) : Prop := ∀ x ∈ c, x ∉ "\"\\\n".toList

instance (c : Text) : Decidable (IsContent c) := decidableForallMem c _

theorem IsContent.not_mem {c : Text} (hc : IsContent c) {x : Char} (hx : x ∈ "\"\\\n".toList) : x ∉ c :=
  fun hmem => hc x hmem hx

/-! ## The statement on its line -/

/-- Letters that neither end a statement nor open or close anything are written as they stand. -/
theorem StatementLines.run_quiet {xs : List (Seen Char)}
    (h : ∀ x ∈ xs, x.zone.isCode = true → x.letter ∉ "();\x7b\x7d".toList) (rest : List (Seen Char))
    (out : Text) (bs : List OpenBrace) (n : Nat) :
    (mk out bs n false).run (xs ++ rest) = (mk ((xs.map Seen.letter).reverse ++ out) bs n false).run rest := by
  induction xs generalizing out with
  | nil => rfl
  | cons x xs ih =>
    rw [List.forall_mem_cons] at h
    have hfeed : (mk out bs n false).feed x (xs ++ rest) = mk (x.letter :: out) bs n false := by
      have hsettle : (mk out bs n false).settle x.letter = mk out bs n false := rfl
      rw [feed, Bool.false_and, if_neg Bool.false_ne_true, hsettle]
      dsimp only
      split
      · rename_i hcode
        rw [code_of_quiet (h.1 hcode)]
        rfl
      · rfl
    rw [List.cons_append, run, hfeed, ih h.2, List.map_cons, List.reverse_cons, List.append_assoc,
      List.singleton_append]

/-- A text as it is seen in one zone outside all braces. -/
def seenIn (z : Zone) (t : Text) : List (Seen Char) := t.map fun x => ⟨x, z, 0⟩

theorem map_letter_seenIn (z : Zone) (t : Text) : (seenIn z t).map Seen.letter = t := by
  rw [seenIn, List.map_map]
  exact List.map_id t

/-- What a scan sees of a statement that prints a literal. -/
theorem scan_javaPrint {c : Text} (hc : IsContent c) : scan (javaPrint c) =
    seenIn .code "System.out.println(" ++ (seenIn (.literal .double) (quoted c) ++ seenIn .code ");") := by
  have hquiet : IsQuiet "System.out.println(" := by decide
  have hcall : ∀ x ∈ "System.out.println(".toList, ∀ next,
      (Scanner.mk .code 0 none).step (Marked.mark x) next = (.code, ⟨.code, 0, none⟩) :=
    fun x hx => step_of_isQuiet (hquiet x hx) 0
  have hcontent : ∀ x ∈ c, ∀ next, (Scanner.mk (.literal .double) 0 none).step (Marked.mark x) next =
      (.literal .double, ⟨.literal .double, 0, none⟩) :=
    fun x hx => step_of_staysLiteral (staysLiteral_of_not_mem (hc x hx)) 0
  have hopen (rest : Text) : (Scanner.mk .code 0 none).run ('"' :: rest) =
      ⟨'"', .literal .double, 0⟩ :: (Scanner.mk (.literal .double) 0 none).run rest := rfl
  have hend : (Scanner.mk (.literal .double) 0 none).run ['"', ')', ';'] =
      [⟨'"', .literal .double, 0⟩, ⟨')', .code, 0⟩, ⟨';', .code, 0⟩] := rfl
  have hscan : scan (javaPrint c) = (Scanner.mk .code 0 none).run (javaPrint c) := rfl
  rw [hscan, javaPrint_eq, Scanner.run_steady hcall, hopen, Scanner.run_steady hcontent, hend]
  simp [seenIn, quoted]

theorem splitStatements_javaPrint {c : Text} (hc : IsContent c) :
    splitStatements (javaPrint c) = javaPrint c := by
  have hname : ∀ x ∈ seenIn .code "System.out.println", x.zone.isCode = true →
      x.letter ∉ "();\x7b\x7d".toList := by
    decide
  have hliteral : ∀ x ∈ seenIn (.literal .double) (quoted c), x.zone.isCode = true →
      x.letter ∉ "();\x7b\x7d".toList := by
    intro x hx hcode
    obtain ⟨y, -, rfl⟩ := List.mem_map.mp hx
    cases hcode
  have hopen (out : Text) (rest : List (Seen Char)) :
      (StatementLines.mk out [] 0 false).run (⟨'(', .code, 0⟩ :: rest) =
        (StatementLines.mk ('(' :: out) [] 1 false).run rest := rfl
  have hend (out : Text) :
      ((StatementLines.mk out [] 1 false).run [⟨')', .code, 0⟩, ⟨';', .code, 0⟩]).out = ';' :: ')' :: out := rfl
  have hcall : seenIn .code "System.out.println(" = seenIn .code "System.out.println" ++ [⟨'(', .code, 0⟩] := by
    decide
  have hclose : seenIn .code ");" = [⟨')', .code, 0⟩, ⟨';', .code, 0⟩] := by decide
  have hout : (splitStatements (javaPrint c)) =
      (';' :: ')' :: ((quoted c).reverse ++ '(' :: ("System.out.println".toList.reverse ++ []))).reverse := by
    show ((StatementLines.mk [] [] 0 false).run (scan (javaPrint c))).out.reverse = _
    rw [scan_javaPrint hc, hcall, hclose, List.append_assoc, StatementLines.run_quiet hname,
      List.singleton_append, hopen, StatementLines.run_quiet hliteral, hend, map_letter_seenIn,
      map_letter_seenIn]
  rw [hout, javaPrint_eq]
  simp [quoted]

/-! ## Without terminators -/

/-- A literal is written as it stands. -/
theorem Terminators.walk_literal {c : Text} {q : Char} (hc : ∀ x ∈ c, x ≠ '\\' ∧ x ≠ q) (hq : q ≠ '\\')
    (rest out : Text) (header : Bool) (b : Option Char) :
    (mk out (some q) false header false).walk b (c ++ q :: rest) =
      (mk (q :: (c.reverse ++ out)) none false header false).walk (some q) rest := by
  induction c generalizing out b with
  | nil =>
    rw [List.nil_append, walk]
    simp [inLiteral, push, hq]
  | cons x c ih =>
    rw [List.forall_mem_cons] at hc
    have hstep : (mk out (some q) false header false).inLiteral q x =
        mk (x :: out) (some q) false header false := by
      simp [inLiteral, push, hc.1.1, hc.1.2]
    rw [List.cons_append, walk]
    dsimp only
    rw [hstep, ih hc.2, List.reverse_cons, List.append_assoc, List.singleton_append]

theorem stripTerminators_goPrint {c : Text} (hc : IsContent c) : stripTerminators (goPrint c) = goPrint c := by
  have hline : '\n' ∉ goPrint c := by
    have hnewline : '\n' ∉ c := hc.not_mem (by decide)
    rw [goPrint_eq]
    simp [hnewline]
  have hliteral : ∀ x ∈ c, x ≠ '\\' ∧ x ≠ '"' := by
    intro x hx
    refine ⟨?_, ?_⟩ <;> rintro rfl <;> exact hc _ hx (by decide)
  have hcall (rest : Text) : dropTerminators
      (['f', 'm', 't', '.', 'P', 'r', 'i', 'n', 't', 'l', 'n', '('] ++ '"' :: rest) =
      (Terminators.mk ['"', '(', 'n', 'l', 't', 'n', 'i', 'r', 'P', '.', 't', 'm', 'f'] (some '"') false false
        false).walk (some '"') rest := rfl
  have hend (out : Text) : (Terminators.mk out none false false false).walk (some '"') [')'] =
      (')' :: out).reverse := rfl
  have hchars : "fmt.Println(".toList = ['f', 'm', 't', '.', 'P', 'r', 'i', 'n', 't', 'l', 'n', '('] := by
    decide
  rw [stripTerminators, pieces_of_not_mem hline, List.map_singleton, join, goPrint_eq, hchars, hcall,
    Terminators.walk_literal hliteral (by decide), hend]
  simp

/-! ## The call that prints -/

/-- A part of a text has a first place. -/
theorem Text.exists_first_infix {w : Text} : ∀ {t : Text}, w <:+: t →
    ∃ s r, t = s ++ (w ++ r) ∧ ∀ s₁ s₂, s = s₁ ++ s₂ → s₂ ≠ [] → ¬ w <+: s₂ ++ (w ++ r)
  | [], h => by
    obtain rfl := List.infix_nil.mp h
    refine ⟨[], [], rfl, fun s₁ s₂ hsplit hne => absurd ?_ hne⟩
    exact (List.append_eq_nil_iff.mp hsplit.symm).2
  | c :: t, h => by
    by_cases hstart : w <+: c :: t
    · obtain ⟨r, hr⟩ := hstart
      refine ⟨[], r, hr.symm, fun s₁ s₂ hsplit hne => absurd ?_ hne⟩
      exact (List.append_eq_nil_iff.mp hsplit.symm).2
    · have hrest : w <:+: t := (List.infix_cons_iff.mp h).resolve_left hstart
      obtain ⟨s, r, rfl, hfirst⟩ := exists_first_infix hrest
      refine ⟨c :: s, r, rfl, ?_⟩
      intro s₁ s₂ hsplit hne
      cases s₁ with
      | nil =>
        rw [List.nil_append] at hsplit
        rw [← hsplit]
        exact hstart
      | cons d s₁ => exact hfirst s₁ s₂ (List.cons.inj hsplit).2 hne

theorem not_newline {s : Text} (h : '\n' ∉ s) : ∀ x ∈ s, (!"\n".toList.elem x) = true := by
  intro x hx
  have hne : x ≠ '\n' := fun hx' => h (hx' ▸ hx)
  simp [hne]

/-- The rule for calls that print a line. -/
def printLineRule : Rule := printRule "System.out.println(" "fmt.Println("

open Pattern in
/-- A call that prints ends at the first closing parenthesis with a semicolon. -/
theorem apply_printLineRule {s r : Text} (hline : '\n' ∉ s)
    (hfirst : ∀ s₁ s₂, s = s₁ ++ s₂ → s₂ ≠ [] → ¬ ");".toList <+: s₂ ++ (");".toList ++ r)) :
    ∃ b offset, printLineRule.pass.apply ("System.out.println(".toList ++ (s ++ (");".toList ++ r))) =
      "fmt.Println(".toList ++ (s ++ (")".toList ++
        printLineRule.pattern.replaceFrom printLineRule.template.fill b offset 0 r)) := by
  obtain ⟨b, hrun⟩ : ∃ b, (group 1 someOfLine ++ text ");").First
      ⟨lastOf none "System.out.println(".toList, s ++ (");".toList ++ r), []⟩ ⟨b, r, [(1, s)]⟩ :=
    ⟨_, First.lazyTo (not_newline hline) (fun s₁ s₂ hsplit hne => views_text_eq_nil (hfirst s₁ s₂ hsplit hne))
      (First.text ");".toList r _ _)⟩
  have hmatch : printLineRule.pattern.First
      ⟨none, ("System.out.println(".toList ++ (s ++ ");".toList)) ++ r, []⟩ ⟨b, r, [(1, s)]⟩ := by
    rw [List.append_assoc, List.append_assoc]
    exact First.assoc (.seq (First.text "System.out.println(".toList _ none []) hrun)
  have hwrite : ∀ m : Match, m.Is 0 ("System.out.println(".toList ++ (s ++ ");".toList)) [(1, s)] →
      printLineRule.template.fill m = "fmt.Println(".toList ++ (s ++ ")".toList) := by
    intro m hm
    have hgroup : m.group 1 = s := hm.group 0
    have hfill : printLineRule.template.fill m =
        "fmt.Println(".toList ++ (m.group 1 ++ (")".toList ++ [])) := rfl
    rw [hfill, hgroup, List.append_nil]
  have hne : "System.out.println(".toList ++ (s ++ ");".toList) ≠ [] := by
    rw [Ne, List.append_eq_nil_iff, List.append_eq_nil_iff]
    exact fun h => absurd h.1 (by decide)
  have happly := replaceFrom_first hne hmatch rfl hwrite
  rw [List.append_assoc, List.append_assoc, List.append_assoc, List.append_assoc] at happly
  exact ⟨_, _, happly⟩

open Pattern in
/-- A lazy run to a text that follows somewhere on the line finds an end. -/
theorem exists_first_someOfLine {s : Text} (hs : '\n' ∉ s) (index : Nat) (e r : Text) (b : Option Char)
    (g : Notes) : ∃ u, (group index someOfLine ++ text e).First ⟨b, s ++ (e ++ r), g⟩ u := by
  have hmem : ⟨lastOf (lastOf b s) e, r, (index, s) :: g⟩ ∈
      (group index someOfLine ++ text e).views ⟨b, s ++ (e ++ r), g⟩ := by
    rw [views_seq, List.mem_flatMap]
    refine ⟨_, mem_views_lazy_of (not_newline hs), ?_⟩
    rw [views_text_append]
    exact List.mem_singleton_self _
  exact Option.isSome_iff_exists.mp (List.isSome_head?.mpr (List.ne_nil_of_mem hmem))

open Pattern in
/-- A call of a function of a package that a semicolon ends is found. -/
theorem findAll_callRule_ne_nil {w : Text} (hw : '\n' ∉ w) :
    callRule.pattern.findAll ("fmt.Println(".toList ++ (w ++ ");".toList)) ≠ [] := by
  have hchars : "fmt.Println(".toList =
      ['f', 'm', 't'] ++ ('.' :: (['P', 'r', 'i', 'n', 't', 'l', 'n'] ++ ['('])) := by decide
  have hfmt (rest : Text) : (group 1 word).First ⟨none, ['f', 'm', 't'] ++ '.' :: rest, []⟩
      ⟨some 't', '.' :: rest, [(1, ['f', 'm', 't'])]⟩ :=
    First.group (First.run1 (by decide) (by decide) rfl none []) 1
  have hprintln (rest : Text) (g : Notes) : (group 2 word).First
      ⟨some '.', ['P', 'r', 'i', 'n', 't', 'l', 'n'] ++ '(' :: rest, g⟩
      ⟨some 'n', '(' :: rest, (2, ['P', 'r', 'i', 'n', 't', 'l', 'n']) :: g⟩ :=
    First.group (First.run1 (by decide) (by decide) rfl _ g) 2
  obtain ⟨u, hend⟩ := exists_first_someOfLine hw 3 ");".toList [] (some '(')
    [(2, ['P', 'r', 'i', 'n', 't', 'l', 'n']), (1, ['f', 'm', 't'])]
  rw [List.append_nil] at hend
  have hfirst : callRule.pattern.First ⟨none, "fmt.Println(".toList ++ (w ++ ");".toList), []⟩ u := by
    rw [hchars]
    exact First.assoc (.seq (.seq (.seq (.seq (hfmt _) (First.text ['.'] _ _ _)) (hprintln _ _))
      (First.text ['('] _ _ _)) hend)
  have hne : ∀ s g, callRule.pattern.Fits s g → s ≠ [] := (Has.text List.infix_rfl).right.ne_nil (by decide)
  intro hnil
  have hviews := views_eq_nil_of_skips ((findAll_eq_nil_iff_skips hne).mp hnil) (by rw [hchars]; simp)
  rw [List.append_nil] at hviews
  rw [First, hviews] at hfirst
  cases hfirst

/-! ## Content that stays -/

/-- The passes behind the one for calls that print a line. -/
def laterPasses : List Pass := (printRules.tail ++ concatRules).map Rule.pass ++ statementPasses

theorem bodyPasses_eq : bodyPasses false = printLineRule.pass :: laterPasses := rfl

theorem wanes_laterPasses : ∀ p ∈ laterPasses, p.Wanes :=
  fun p hp => wanes_of_mem_bodyPasses p (bodyPasses_eq ▸ List.mem_cons_of_mem _ hp)

theorem load_goPrint (c : Text) : (goPrint c).load = 1 + (quoted c).load := by
  have hcall : load "fmt.Println(" = 1 := by decide
  have hend : load ")" = 0 := by decide
  unfold goPrint
  rw [load_append, load_append, hcall, hend, Int.add_zero]

theorem IsContent.newline_not_mem {c : Text} (hc : IsContent c) : '\n' ∉ quoted c ++ ");".toList := by
  have hnewline : '\n' ∉ c := hc.not_mem (by decide)
  simp [quoted, hnewline]

/-- Behind an end of a call inside a literal stands another, the one behind the literal. -/
theorem exists_of_callEnd {c s r : Text} (h : quoted c ++ ");".toList = s ++ (");".toList ++ r)) (hr : r ≠ []) :
    ");".toList <:+: c ∧ ∃ r', r = r' ++ ");".toList := by
  have hchars : ");".toList = [')', ';'] := by decide
  obtain ⟨r', x, rfl⟩ := (List.eq_nil_or_concat r).resolve_left hr
  -- both texts end with a semicolon
  rw [hchars] at h
  have hcancel : (quoted c ++ [')']) ++ [';'] = (s ++ ([')', ';'] ++ r')) ++ [x] := by simpa using h
  obtain ⟨hfront, hx⟩ := List.append_inj' hcancel rfl
  obtain rfl : x = ';' := by simpa using hx.symm
  refine ⟨?_, ?_⟩
  · have hinfix : ");".toList <:+: [] ++ '"' :: (c ++ '"' :: [')']) := by
      rw [hchars]
      refine ⟨s, r', ?_⟩
      rw [List.append_assoc, ← hfront]
      simp [quoted]
    rcases infix_or_infix_of_not_mem (by decide) hinfix with hnil | hrest
    · exact absurd hnil (by decide)
    · exact (infix_or_infix_of_not_mem (by decide) hrest).resolve_right (by decide)
  · obtain rfl | ⟨r'', y, rfl⟩ := List.eq_nil_or_concat r'
    · -- the parenthesis would be a semicolon
      have hlast : (quoted c ++ [')']) = (s ++ [')']) ++ [';'] := by simpa using hfront
      exact absurd (List.append_inj' hlast rfl).2 (by decide)
    · have hlast : quoted c ++ [')'] = (s ++ ([')', ';'] ++ r'')) ++ [y] := by simpa using hfront
      obtain rfl : y = ')' := by simpa using (List.append_inj' hlast rfl).2.symm
      exact ⟨r'', by rw [hchars]; simp⟩

/-- The call that prints ends at its own end, or at one inside the literal. -/
theorem apply_printLineRule_javaPrint {c : Text} (hc : IsContent c) :
    (¬ ");".toList <:+: c ∧ printLineRule.pass.apply (javaPrint c) = goPrint c) ∨
    (");".toList <:+: c ∧ ∃ s r b offset, quoted c ++ ");".toList = s ++ (");".toList ++ (r ++ ");".toList)) ∧
      printLineRule.pass.apply (javaPrint c) = "fmt.Println(".toList ++ (s ++ (")".toList ++
        printLineRule.pattern.replaceFrom printLineRule.template.fill b offset 0 (r ++ ");".toList)))) := by
  obtain ⟨s, r, hsplit, hfirst⟩ := Text.exists_first_infix (List.suffix_append (quoted c) ");".toList).isInfix
  have hline : '\n' ∉ s := by
    have hnewline := hc.newline_not_mem
    rw [hsplit, List.mem_append, not_or] at hnewline
    exact hnewline.1
  obtain ⟨b, offset, happly⟩ := apply_printLineRule hline hfirst
  rw [← hsplit, ← List.append_assoc] at happly
  by_cases hr : r = []
  · subst hr
    rw [List.append_nil] at hsplit hfirst
    obtain rfl := List.append_cancel_right hsplit
    refine .inl ⟨?_, ?_⟩
    · -- an end inside the content would come first
      rintro ⟨c₁, c₂, rfl⟩
      apply hfirst ('"' :: c₁) (");".toList ++ c₂ ++ ['"'])
      · simp [quoted]
      · simp
      · rw [List.append_assoc, List.append_assoc]
        exact List.prefix_append _ _
    · rw [Pattern.replaceFrom, List.append_nil, ← List.append_assoc] at happly
      exact happly
  · obtain ⟨hmem, r', rfl⟩ := exists_of_callEnd hsplit hr
    exact .inr ⟨hmem, s, r', b, offset, hsplit, happly⟩

/-- Where the call ends inside the literal, the rest of the statement is a call that is found again, and the
statement gets lighter than the one that prints the literal. -/
theorem load_run_lt_of_callEnd {c s r : Text} {b : Option Char} {offset : Nat} (hc : IsContent c)
    (hsplit : quoted c ++ ");".toList = s ++ (");".toList ++ (r ++ ");".toList)))
    (happly : printLineRule.pass.apply (javaPrint c) = "fmt.Println(".toList ++ (s ++ (")".toList ++
      printLineRule.pass.pattern.replaceFrom printLineRule.pass.write b offset 0 (r ++ ");".toList)))) :
    (Pass.run laterPasses (printLineRule.pass.apply (javaPrint c))).load < (goPrint c).load := by
  have hrun := Pass.load_run_le wanes_laterPasses (printLineRule.pass.apply (javaPrint c))
  have hprinted : (goPrint c).load = 1 + (s.load + (r ++ ");".toList).load) := by
    have hboth := congrArg load hsplit
    rw [load_append, load_append s, load_append ");".toList (r ++ ");".toList)] at hboth
    rw [load_goPrint]
    omega
  have happlied : (printLineRule.pass.apply (javaPrint c)).load = 1 + (s.load + load
      (printLineRule.pass.pattern.replaceFrom printLineRule.pass.write b offset 0 (r ++ ");".toList))) := by
    have hcall : load "fmt.Println(".toList = 1 := by decide
    have hclose : load ")".toList = 0 := by decide
    rw [happly, load_append, load_append, load_append, hcall, hclose, Int.zero_add]
  have hwanes : printLineRule.pass.Wanes := wanes_of_mem_bodyPasses _ (bodyPasses_eq ▸ List.mem_cons_self)
  rcases hwanes.replaceFrom_lt_or_eq (r ++ ");".toList) b offset with hlt | hsame
  · omega
  · rw [hsame] at happly happlied
    by_contra hle
    -- otherwise no pass changes the call
    have hidle := Pass.idle_of_load_le_run wanes_laterPasses
      (t := printLineRule.pass.apply (javaPrint c)) (by omega)
    have hcall : callRule.pass.Idle (printLineRule.pass.apply (javaPrint c)) :=
      hidle _ (List.mem_append_right _ (by simp [statementPasses]))
    have hlightens : callRule.Lightens := lightens_of_mem _ (by simp [bodyRules])
    have hnil := hlightens.findAll_eq_nil hcall
    have hline : '\n' ∉ s ++ (")".toList ++ r) := by
      have hnewline := hc.newline_not_mem
      rw [hsplit] at hnewline
      simp only [List.mem_append, not_or] at hnewline ⊢
      exact ⟨hnewline.1, by decide, hnewline.2.2.1⟩
    rw [happly, ← List.append_assoc ")".toList, ← List.append_assoc s] at hnil
    exact findAll_callRule_ne_nil hline hnil

/-- The statement is recast as it should be exactly if the call ends at its own end and no later pass changes
what is printed. -/
theorem recast_javaPrint_eq_iff {c : Text} (hc : IsContent c) :
    ({} : Recaster).recast (javaPrint c) = goPrint c ↔
      ¬ ");".toList <:+: c ∧ ∀ p ∈ laterPasses, p.Idle (goPrint c) := by
  have hrecast : ({} : Recaster).recast (javaPrint c) =
      stripTerminators (Pass.run laterPasses (printLineRule.pass.apply (javaPrint c))) := by
    rw [show ({} : Recaster) = { libraryCalls := false } from rfl, Recaster.recast_eq_run,
      splitStatements_javaPrint hc, bodyPasses_eq, Pass.run_cons]
  -- dropping terminators makes nothing heavier
  have hload (h : ({} : Recaster).recast (javaPrint c) = goPrint c) :
      (goPrint c).load ≤ (Pass.run laterPasses (printLineRule.pass.apply (javaPrint c))).load := by
    have hstrip := load_stripTerminators_le (Pass.run laterPasses (printLineRule.pass.apply (javaPrint c)))
    rwa [← hrecast, h] at hstrip
  rcases apply_printLineRule_javaPrint hc with ⟨hend, happly⟩ | ⟨hend, s, r, b, offset, hsplit, happly⟩
  · rw [happly] at hload hrecast
    constructor
    · exact fun h => ⟨hend, Pass.idle_of_load_le_run wanes_laterPasses (hload h)⟩
    · rintro ⟨-, hidle⟩
      rw [hrecast, Pass.run_eq_of_idle hidle, stripTerminators_goPrint hc]
  · have hlt := load_run_lt_of_callEnd hc hsplit happly
    exact ⟨fun h => absurd (hload h) (Int.not_le.mpr hlt), fun h => absurd hend h.1⟩

end GoDraft
