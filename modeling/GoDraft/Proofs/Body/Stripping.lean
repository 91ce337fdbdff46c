import GoDraft.Proofs.Body.Roles
import GoDraft.Proofs.Body.Traces
import GoDraft.Proofs.Text.Trim

/-!
# GoDraft — texts without terminators

At the first terminator of a line three things can happen. If nothing but blanks and terminators follows, or a
comment behind them, the line goes on without the terminators. If another statement follows, the line ends before
the terminator and the statement is a line of its own, read from its start as it was in its place. So all that is said
about a text without terminators is shown by going from one terminator to the next.

* `Stripped` — what stays, what goes and where lines end, character by character;
* `Drops`, `drops_dropTerminators` — a line, from one terminator to the next;
* `Drops.stripped`, `Drops.unterminated` — what comes of a line, and how that is read again;
* `stripTerminators_of_unterminated` — a text without terminators stays as it is;
* `stripped_stripTerminators` — terminators are dropped, and nothing else.
-/

namespace GoDraft

/-! ## What stays and what goes -/

/-- A text comes of characters with roles: terminators go or become line feeds, blanks outside literals and comments
may go, and all else stays. -/
inductive Stripped : List (Char × Role) → Text → Prop where
  | nil : Stripped [] []
  | keep {c : Char} {role : Role} {xs : List (Char × Role)} {t : Text} (hrole : role ≠ .terminator)
      (h : Stripped xs t) : Stripped ((c, role) :: xs) (c :: t)
  | blank {c : Char} {xs : List (Char × Role)} {t : Text} (hc : isBlank c = true) (hline : c ≠ '\n')
      (h : Stripped xs t) : Stripped ((c, .plain) :: xs) t
  | terminator {xs : List (Char × Role)} {t : Text} (h : Stripped xs t) : Stripped ((';', .terminator) :: xs) t
  | line {xs : List (Char × Role)} {t : Text} (h : Stripped xs t) : Stripped ((';', .terminator) :: xs) ('\n' :: t)

namespace Stripped

variable {xs ys : List (Char × Role)} {run t u : Text}

theorem append (h : Stripped xs t) (h' : Stripped ys u) : Stripped (xs ++ ys) (t ++ u) := by
  induction h with
  | nil => exact h'
  | keep hrole _ ih => exact .keep hrole ih
  | blank hc hline _ ih => exact .blank hc hline ih
  | terminator _ ih => exact .terminator ih
  | line _ ih => exact .line ih

/-- What comes of two parts. -/
theorem exists_append : ∀ {xs : List (Char × Role)} {t : Text}, Stripped (xs ++ ys) t →
    ∃ u v, t = u ++ v ∧ Stripped xs u ∧ Stripped ys v
  | [], t, h => ⟨[], t, rfl, .nil, h⟩
  | x :: xs, t, h => by
    rw [List.cons_append] at h
    cases h with
    | keep hrole h =>
      obtain ⟨u, v, rfl, hu, hv⟩ := exists_append h
      exact ⟨_ :: u, v, rfl, .keep hrole hu, hv⟩
    | blank hc hline h =>
      obtain ⟨u, v, rfl, hu, hv⟩ := exists_append h
      exact ⟨u, v, rfl, .blank hc hline hu, hv⟩
    | terminator h =>
      obtain ⟨u, v, rfl, hu, hv⟩ := exists_append h
      exact ⟨u, v, rfl, .terminator hu, hv⟩
    | line h =>
      obtain ⟨u, v, rfl, hu, hv⟩ := exists_append h
      exact ⟨'\n' :: u, v, rfl, .line hu, hv⟩

theorem same (h : Unterminated xs) : Stripped xs (xs.map Prod.fst) := by
  induction xs with
  | nil => exact .nil
  | cons x xs ih =>
    rw [Unterminated, List.forall_mem_cons] at h
    exact .keep h.1 (ih h.2)

/-- Literals, comments and headers stay as they are. -/
theorem eq_of_kept (h : Stripped xs t) (hxs : ∀ x ∈ xs, x.2 ∈ [Role.literal, .comment, .clause]) :
    t = xs.map Prod.fst := by
  induction h with
  | nil => rfl
  | keep _ _ ih =>
    rw [List.forall_mem_cons] at hxs
    rw [ih hxs.2, List.map_cons]
  | blank =>
    have hplain : Role.plain ∈ [Role.literal, .comment, .clause] := hxs _ List.mem_cons_self
    exact absurd hplain (by decide)
  | terminator => exact absurd (hxs _ List.mem_cons_self) (by decide)
  | line => exact absurd (hxs _ List.mem_cons_self) (by decide)

/-- Of blanks and terminators any blanks may stay. -/
theorem runs {held : Text} (hrun : ∀ c ∈ run, isRunChar c = true) (hline : '\n' ∉ run)
    (hheld : held.Sublist (run.filter isBlank)) : Stripped (runRoles run) held := by
  induction run generalizing held with
  | nil =>
    rw [List.filter_nil, List.sublist_nil] at hheld
    rw [hheld]
    exact .nil
  | cons c run ih =>
    rw [List.forall_mem_cons] at hrun
    rw [List.mem_cons, not_or] at hline
    by_cases hc : c = ';'
    · subst hc
      rw [List.filter_cons_of_neg (by decide)] at hheld
      exact .terminator (ih hrun.2 hline.2 hheld)
    · have hblank : isBlank c = true := by simpa [isRunChar, hc] using hrun.1
      have hrole : (c, runRole c) = (c, .plain) := by rw [runRole, if_neg hc]
      rw [List.filter_cons_of_pos hblank, List.sublist_cons_iff] at hheld
      rw [runRoles, List.map_cons, hrole]
      obtain hheld | ⟨held, rfl, hheld⟩ := hheld
      · exact .blank hblank (Ne.symm hline.1) (ih hrun.2 hline.2 hheld)
      · exact .keep (by decide) (ih hrun.2 hline.2 hheld)

theorem blanks (ht : ∀ c ∈ t, isBlank c = true) (hline : '\n' ∉ t) : Stripped (t.map fun c => (c, .plain)) [] := by
  induction t with
  | nil => exact .nil
  | cons c t ih =>
    rw [List.forall_mem_cons] at ht
    rw [List.mem_cons, not_or] at hline
    exact .blank ht.1 (Ne.symm hline.1) (ih ht.2 hline.2)

end Stripped

/-! ## Terminators of a line -/

theorem mem_dropWhile_of_not {p : Char → Bool} {c : Char} {t : Text} (h : c ∈ t) (hc : ¬ p c = true) :
    c ∈ t.dropWhile p := by
  rw [← List.takeWhile_append_dropWhile (p := p) (l := t), List.mem_append] at h
  exact h.resolve_left fun htaken => hc (List.mem_takeWhile_imp htaken)

namespace Terminators

/-- Lines may stand before what has been written: a walk does not reach back over a character that is no blank. -/
theorem walk_append (base t : Text) (st : Terminators) (before : Option Char)
    (hout : ∃ c ∈ st.out, isBlank c = false) :
    { st with out := st.out ++ base }.walk before t = base.reverse ++ st.walk before t := by
  induction t generalizing st before with
  | nil => rw [walk, walk, List.reverse_append]
  | cons c rest ih =>
    have hpush : ∃ d ∈ c :: st.out, isBlank d = false := hout.imp fun d hd => ⟨List.mem_cons_of_mem c hd.1, hd.2⟩
    rw [walk, walk]
    dsimp only
    split
    · rename_i q hq
      obtain ⟨hwritten, -⟩ := out_inLiteral st q c
      have hbehind : { st with out := st.out ++ base }.inLiteral q c =
          { st.inLiteral q c with out := (st.inLiteral q c).out ++ base } := by
        unfold inLiteral push
        dsimp only
        split
        · rfl
        · split
          · rfl
          · split <;> rfl
      rw [hbehind]
      exact ih _ _ (by rw [hwritten]; exact hpush)
    · split
      · exact ih st _ hout
      · split
        · exact ih { st.push c with quote := some c } _ hpush
        · split
          · rw [List.reverse_append, List.append_assoc]
          · split
            · exact ih { st.push c with forHeader := true } _ hpush
            · split
              · exact ih { st.push c with forHeader := false } _ hpush
              · split
                · split
                  · rw [List.reverse_append]
                  · split
                    · exact ih st _ hout
                    · -- blanks are taken back here, but not over the character that is none
                      obtain ⟨d, hd, hblank⟩ := hout
                      have hmem : d ∈ st.out.dropWhile isBlank := mem_dropWhile_of_not hd (by simp [hblank])
                      have hdrop : (st.out ++ base).dropWhile isBlank = st.out.dropWhile isBlank ++ base := by
                        rw [List.dropWhile_append, if_neg]
                        rw [List.isEmpty_iff]
                        exact List.ne_nil_of_mem hmem
                      rw [hdrop]
                      exact ih { st with out := '\n' :: st.out.dropWhile isBlank, skipping := true } _
                        ⟨d, List.mem_cons_of_mem _ hmem, hblank⟩
                · exact ih (st.push c) _ hpush

/-- Blanks are not skipped before a character that is none. -/
theorem walk_of_skipping (st : Terminators) (before : Option Char) {c : Char} (hc : isBlank c = false) (hend : c ≠ ';')
    (rest : Text) : { st with skipping := true }.walk before (c :: rest) =
      { st with skipping := false }.walk before (c :: rest) := by
  rw [walk, walk]
  simp only [hc, hend, Bool.and_false, false_and, if_false]
  rfl

/-- Blanks before a new statement are skipped. -/
theorem walk_skipped (st : Terminators) (hquote : st.quote = none) (hskip : st.skipping = true) {gap : Text}
    (hgap : ∀ c ∈ gap, isBlank c = true) (before : Option Char) (t : Text)
    (hbefore : before.any isNameChar = false) :
    ∃ before', before'.any isNameChar = false ∧ st.walk before (gap ++ t) = st.walk before' t := by
  induction gap generalizing before with
  | nil => exact ⟨before, hbefore, rfl⟩
  | cons c gap ih =>
    rw [List.forall_mem_cons] at hgap
    have hstep : st.walk before (c :: (gap ++ t)) = st.walk (some c) (gap ++ t) := by
      rw [walk, hquote]
      simp only [hskip, hgap.1, Bool.and_self, if_true]
    rw [List.cons_append, hstep]
    exact ih hgap.2 (some c) (isNameChar_of_isBlank hgap.1)

end Terminators

/-- A text begins neither with a blank or a semicolon nor with a line comment. -/
def BeginsStatement (t : Text) : Prop :=
  ∃ c u, t = c :: u ∧ isRunChar c = false ∧ ¬ (c = '/' ∧ u.head? = some '/')

namespace LineReader

variable {r : LineReader} {out rest : Text}

/-- What comes of a line at a terminator. -/
theorem Idle.walk_terminator (h : r.Idle) (out rest : Text) : r.walk out (';' :: rest) =
    if (Text.trimStart rest).isEmpty then out.reverse
    else if (Text.trimStart rest).startsWith "//" || (Text.trimStart rest).head? == some ';' then
      { r with before := some ';' }.walk out rest
    else (Terminators.mk ('\n' :: out.dropWhile isBlank) none false false true).walk (some ';') rest := by
  obtain ⟨quote, escaped, forHeader, inComment, before⟩ := r
  obtain ⟨rfl, rfl, rfl, rfl⟩ := h
  rw [walk, Terminators.walk]
  rfl

/-- Blanks are written as they stand. -/
theorem Idle.walk_blanks (h : r.Idle) {gap : Text} (hgap : ∀ c ∈ gap, isBlank c = true) (hline : '\n' ∉ gap)
    (out t : Text) : ∃ r' : LineReader, r'.Idle ∧ r.walk out (gap ++ t) = r'.walk (gap.reverse ++ out) t := by
  induction gap generalizing r out with
  | nil => exact ⟨r, h, rfl⟩
  | cons c gap ih =>
    rw [List.forall_mem_cons] at hgap
    rw [List.mem_cons, not_or] at hline
    have hrun : isRunChar c = true := by rw [isRunChar, hgap.1, Bool.true_or]
    obtain ⟨hrole, hidle, -⟩ := h.runChar hrun (gap ++ t)
    have hplain : r.role c (gap ++ t) = .plain := by
      rw [hrole, runRole, if_neg]
      rintro rfl
      exact absurd hgap.1 (by decide)
    obtain ⟨-, hwalk⟩ := walk_cons h.inComment (Ne.symm hline.1) (by rw [hplain]; decide) (by rw [hplain]; decide) out
    obtain ⟨r', hidle', hwalk'⟩ := ih hidle hgap.2 hline.2 (c :: out)
    refine ⟨r', hidle', ?_⟩
    rw [List.cons_append, hwalk, hwalk', List.reverse_cons, List.append_assoc, List.singleton_append]

/-- A new statement is read as a line of its own. -/
theorem walk_newLine (before : Option Char) (hbefore : before.any isNameChar = false) (base : Text) {t : Text}
    (ht : BeginsStatement t) :
    (Terminators.mk base none false false true).walk before t = base.reverse ++ dropTerminators t := by
  obtain ⟨c, t, rfl, hc, hcomment⟩ := ht
  rw [isRunChar, Bool.or_eq_false_iff, beq_eq_false_iff_ne] at hc
  have hline : c ≠ '\n' := by
    rintro rfl
    exact absurd hc.1 (by decide)
  have hidle : Idle ⟨none, false, false, false, before⟩ := ⟨rfl, rfl, rfl, rfl⟩
  obtain ⟨hrole, hnext⟩ := hidle.next_eq hbefore c t
  have hnotComment : ({} : LineReader).role c t ≠ .comment := fun h => hcomment ((role_eq_comment_iff rfl).1 h).2
  have hnotEnd : ({} : LineReader).role c t ≠ .terminator := fun h => hc.2 (role_eq_terminator_iff.1 h).1
  obtain ⟨-, hwalk⟩ := walk_cons idle_start.inComment hline hnotComment hnotEnd []
  rw [← hrole] at hnotComment hnotEnd
  obtain ⟨-, hwalk'⟩ := walk_cons hidle.inComment hline hnotComment hnotEnd base
  have hskip : (Terminators.mk base none false false true).walk before (c :: t) =
      walk ⟨none, false, false, false, before⟩ base (c :: t) :=
    Terminators.walk_of_skipping ⟨base, none, false, false, false⟩ before hc.1 hc.2 t
  rw [hskip, hwalk', hnext, dropTerminators_eq_walk, hwalk]
  have hbehind := Terminators.walk_append base t ⟨[c], (LineReader.next {} c t).quote, (LineReader.next {} c t).escaped,
    (LineReader.next {} c t).forHeader, false⟩ (LineReader.next {} c t).before ⟨c, List.mem_singleton_self c, hc.1⟩
  exact hbehind

end LineReader

/-- What comes of a line at a terminator that `rest` follows, where `out` has been written: it goes on without the
blanks and terminators that follow, or it ends. -/
inductive AtTerminator (out rest : Text) : Text → Prop where
  | joined {run held more : Text} (hrest : rest = run ++ more) (hrun : ∀ c ∈ run, isRunChar c = true)
      (hheld : held.Sublist (run.filter isBlank))
      (hmore : more = [] ∨ (∃ t, more = '/' :: '/' :: t) ∧ held = run.filter isBlank) :
      AtTerminator out rest (out.reverse ++ (held ++ more))
  | parted {run more : Text} (hrest : rest = run ++ more) (hrun : ∀ c ∈ run, isRunChar c = true)
      (hmore : BeginsStatement more) :
      AtTerminator out rest ((out.dropWhile isBlank).reverse ++ '\n' :: dropTerminators more)

/-- Another terminator follows behind blanks. -/
theorem AtTerminator.behind {out gap rest result : Text} (hgap : ∀ c ∈ gap, isBlank c = true)
    (h : AtTerminator (gap.reverse ++ out) rest result) : AtTerminator out (gap ++ ';' :: rest) result := by
  have hgapRun : ∀ c ∈ gap, isRunChar c = true := fun c hc => by rw [isRunChar, hgap c hc, Bool.true_or]
  have hgapFilter : gap.filter isBlank = gap := List.filter_eq_self.2 hgap
  have hrun' {run : Text} (hrun : ∀ c ∈ run, isRunChar c = true) : ∀ c ∈ gap ++ ';' :: run, isRunChar c = true :=
    List.forall_mem_append.2 ⟨hgapRun, List.forall_mem_cons.2 ⟨by decide, hrun⟩⟩
  cases h with
  | @joined run held more hrest hrun hheld hmore =>
    have hresult : (gap.reverse ++ out).reverse ++ (held ++ more) = out.reverse ++ ((gap ++ held) ++ more) := by simp
    have hfilter : (gap ++ ';' :: run).filter isBlank = gap ++ run.filter isBlank := by
      rw [List.filter_append, hgapFilter, List.filter_cons_of_neg (by decide)]
    rw [hresult]
    refine .joined (by rw [hrest]; simp) (hrun' hrun) ?_ (hmore.imp id fun h => ⟨h.1, by rw [hfilter, h.2]⟩)
    rw [hfilter]
    exact hheld.append_left gap
  | @parted run more hrest hrun hmore =>
    rw [List.dropWhile_append_of_pos fun c hc => hgap c (List.mem_reverse.1 hc)]
    exact .parted (by rw [hrest]; simp) (hrun' hrun) hmore

-- The induction is on what follows the terminator, from one terminator to the next.
/-- **A walk at a terminator**. -/
theorem LineReader.Idle.atTerminator (out rest : Text) (hline : '\n' ∉ rest) {r : LineReader} (h : r.Idle) :
    AtTerminator out rest (r.walk out (';' :: rest)) := by
  induction hn : rest.length using Nat.strong_induction_on generalizing rest out r with
  | _ n ih =>
    subst hn
    -- the blanks behind the terminator count only for what stands behind them
    obtain ⟨gap, ahead, rfl, hgap, hhead⟩ : ∃ gap ahead : Text, rest = gap ++ ahead ∧
        (∀ c ∈ gap, isBlank c = true) ∧ ahead.head?.any isBlank = false :=
      ⟨rest.takeWhile isBlank, rest.dropWhile isBlank, List.takeWhile_append_dropWhile.symm,
        fun c => List.mem_takeWhile_imp, Text.head?_dropWhile_blank rest⟩
    have hgapRun : ∀ c ∈ gap, isRunChar c = true := fun c hc => by rw [isRunChar, hgap c hc, Bool.true_or]
    have hgapFilter : gap.filter isBlank = gap := List.filter_eq_self.2 hgap
    have htrim : Text.trimStart (gap ++ ahead) = ahead := by
      rw [Text.trimStart, List.dropWhile_append_of_pos hgap, dropWhile_blank_of_head hhead]
    have hbefore : Idle { r with before := some ';' } := ⟨h.quote, h.escaped, h.forHeader, h.inComment⟩
    rw [List.mem_append, not_or] at hline
    rw [h.walk_terminator, htrim]
    cases ahead with
    | nil =>
      rw [List.isEmpty_nil, if_pos rfl, ← List.append_nil out.reverse]
      exact .joined rfl hgapRun (List.nil_sublist _) (.inl rfl)
    | cons c t =>
      have hcomment : Text.startsWith (c :: t) "//" = true ↔ c = '/' ∧ t.head? = some '/' := Text.startsWith_pair
      obtain ⟨r', hidle, hwalk⟩ := hbefore.walk_blanks hgap hline.1 out (c :: t)
      rw [List.isEmpty_cons, if_neg Bool.false_ne_true]
      by_cases hc : c = ';'
      · -- another terminator
        subst hc
        rw [List.mem_cons, not_or] at hline
        have hless : t.length < (gap ++ ';' :: t).length := by simp; omega
        rw [if_pos (by simp), hwalk]
        exact (ih t.length hless (gap.reverse ++ out) t hline.2.2 hidle rfl).behind hgap
      · by_cases hslash : c = '/' ∧ t.head? = some '/'
        · -- a comment
          obtain ⟨rfl, hnext⟩ := hslash
          obtain ⟨t, rfl⟩ := List.head?_eq_some_iff.1 hnext
          have hrole : r'.role '/' ('/' :: t) = .comment :=
            (role_eq_comment_iff hidle.inComment).2 ⟨hidle.quote, rfl, rfl⟩
          rw [if_pos (by rw [hcomment.2 ⟨rfl, rfl⟩, Bool.true_or]), hwalk, (walk_comment hidle.inComment hrole _).2,
            List.reverse_append, List.reverse_reverse, List.append_assoc, ← hgapFilter]
          exact .joined (by rw [hgapFilter]) hgapRun (.refl _) (.inr ⟨⟨t, rfl⟩, rfl⟩)
        · -- another statement
          have hend : ¬ (Text.startsWith (c :: t) "//" || (c :: t).head? == some ';') = true := by
            rw [Bool.or_eq_true, hcomment, List.head?_cons, beq_iff_eq, Option.some.injEq]
            exact not_or.2 ⟨hslash, hc⟩
          have hrun : isRunChar c = false := by
            rw [List.head?_cons, Option.any_some] at hhead
            simp [isRunChar, hhead, hc]
          obtain ⟨before, hname, hskip⟩ := Terminators.walk_skipped
            ⟨'\n' :: out.dropWhile isBlank, none, false, false, true⟩ rfl rfl hgap (some ';') (c :: t) rfl
          have hmore : BeginsStatement (c :: t) := ⟨c, t, rfl, hrun, hslash⟩
          rw [if_neg hend, hskip, walk_newLine before hname _ hmore, List.reverse_cons, List.append_assoc,
            List.singleton_append]
          exact .parted rfl hgapRun hmore

/-! ## Lines -/

/-- A part of a line that has no terminator and ends outside literals, comments and headers. -/
structure IsStatement (s : Text) : Prop where
  unterminated : Unterminated (roles s)
  idle : (({} : LineReader).after s).Idle

/-- What dropping terminators makes of a line, from one terminator to the next. -/
inductive Drops : Text → Text → Prop where
  /-- There is no terminator. -/
  | same {line : Text} (h : Unterminated (roles line)) : Drops line line
  /-- Nothing but blanks, terminators and a comment follows. -/
  | joined {s run held more : Text} (hs : IsStatement s) (hrun : ∀ c ∈ run, isRunChar c = true)
      (hheld : held.Sublist (run.filter isBlank))
      (hmore : more = [] ∨ (∃ t, more = '/' :: '/' :: t) ∧ held = run.filter isBlank) :
      Drops (s ++ ';' :: (run ++ more)) (s ++ (held ++ more))
  /-- Another statement follows. -/
  | parted {s run more out : Text} (hs : IsStatement s) (hrun : ∀ c ∈ run, isRunChar c = true)
      (hmore : BeginsStatement more) (h : Drops more out) :
      Drops (s ++ ';' :: (run ++ more)) (s.trimEnd ++ '\n' :: out)

/-- **A line without its terminators**. -/
theorem drops_dropTerminators (line : Text) (hline : '\n' ∉ line) : Drops line (dropTerminators line) := by
  induction hn : line.length using Nat.strong_induction_on generalizing line with
  | _ n ih =>
    subst hn
    rw [LineReader.dropTerminators_eq_walk]
    by_cases hclean : Unterminated (roles line)
    · rw [LineReader.walk_of_unterminated rfl hline hclean]
      exact .same hclean
    · obtain ⟨s, rest, rfl, hs, hidle, hwalk⟩ := LineReader.exists_terminator LineReader.proper_start rfl hline hclean
      have hstatement : IsStatement s := ⟨hs, hidle⟩
      rw [List.mem_append, List.mem_cons, not_or, not_or] at hline
      have hresult := hidle.atTerminator (s.reverse ++ []) rest hline.2.2
      rw [← hwalk] at hresult
      generalize LineReader.walk {} [] (s ++ ';' :: rest) = result at hresult
      rw [List.append_nil] at hresult
      cases hresult with
      | joined hrest hrun hheld hmore =>
        rw [hrest, List.reverse_reverse]
        exact .joined hstatement hrun hheld hmore
      | @parted run more hrest hrun hmore =>
        subst hrest
        rw [List.mem_append, not_or] at hline
        exact .parted hstatement hrun hmore (ih more.length (by simp; omega) more hline.2.2.2 rfl)

theorem roles_append {t : Text} (ht : Neutral t) (s : Text) :
    roles (s ++ t) = roles s ++ (({} : LineReader).after s).roles t :=
  LineReader.roles_append ht s {}

theorem roles_append_newline (s t : Text) : roles (s ++ '\n' :: t) = roles s ++ ('\n', .plain) :: roles t :=
  roles_append (neutral_of_isRunChar (by decide) t) s

/-- A comment has no terminators. -/
theorem unterminated_comment {t : Text} (h : t = [] ∨ ∃ u, t = '/' :: '/' :: u) (hline : '\n' ∉ t) :
    Unterminated (roles t) := by
  obtain rfl | ⟨u, rfl⟩ := h
  · exact unterminated_nil
  · intro x hx
    rw [LineReader.roles_comment rfl (fun hmem => hline (by simp [hmem])) x hx]
    decide

theorem unterminated_runRoles {t : Text} (h : ∀ c ∈ t, isBlank c = true) : Unterminated (runRoles t) := by
  intro x hx
  obtain ⟨c, hc, rfl⟩ := List.mem_map.1 hx
  have hblank := h c hc
  have hne : c ≠ ';' := by
    rintro rfl
    exact absurd hblank (by decide)
  rw [runRole, if_neg hne]
  exact Role.noConfusion

theorem stripped_of_unterminated {t : Text} (h : Unterminated (roles t)) : Stripped (roles t) t := by
  have hsame := Stripped.same h
  rwa [map_fst_roles] at hsame

namespace IsStatement

variable {s gap run t : Text}

/-- Blanks at the end of a statement are read as blanks, and can be taken away. -/
theorem of_append_blanks (hgap : ∀ c ∈ gap, isBlank c = true) (hline : '\n' ∉ gap) (h : IsStatement (s ++ gap)) :
    IsStatement s ∧ roles (s ++ gap) = roles s ++ gap.map fun c => (c, .plain) := by
  induction gap generalizing s with
  | nil =>
    rw [List.append_nil] at h ⊢
    exact ⟨h, (List.append_nil _).symm⟩
  | cons c gap ih =>
    rw [List.forall_mem_cons] at hgap
    rw [List.mem_cons, not_or] at hline
    have hrun : isRunChar c = true := by rw [isRunChar, hgap.1, Bool.true_or]
    have hneutral := neutral_of_isRunChar hrun []
    rw [← List.singleton_append, ← List.append_assoc] at h ⊢
    obtain ⟨⟨hclean, hidle⟩, hroles⟩ := ih hgap.2 hline.2 h
    rw [LineReader.after_append hneutral] at hidle
    rw [roles_append hneutral] at hclean hroles
    obtain ⟨hidle', hplain⟩ := LineReader.Idle.of_next (LineReader.proper_start.after s) hgap.1 (Ne.symm hline.1) hidle
    refine ⟨⟨fun x hx => hclean x (List.mem_append_left _ hx), hidle'⟩, ?_⟩
    rw [hroles, LineReader.roles, hplain, List.append_assoc, List.map_append]
    rfl

theorem trimEnd (h : IsStatement s) (hline : '\n' ∉ s) :
    IsStatement s.trimEnd ∧ Stripped (roles s) s.trimEnd := by
  have hsplit := Text.trimEnd_append_takeWhile s
  have hgap : ∀ c ∈ (s.reverse.takeWhile isBlank).reverse, isBlank c = true := fun c hc =>
    List.mem_takeWhile_imp (List.mem_reverse.1 hc)
  generalize (s.reverse.takeWhile isBlank).reverse = gap at hsplit hgap
  rw [← hsplit] at h hline
  rw [List.mem_append, not_or] at hline
  obtain ⟨htrim, hroles⟩ := h.of_append_blanks hgap hline.2
  have hparts := (stripped_of_unterminated htrim.unterminated).append (Stripped.blanks hgap hline.2)
  rw [← hroles, hsplit, List.append_nil] at hparts
  exact ⟨htrim, hparts⟩

/-- A statement, its terminator with the blanks and terminators that follow, and the rest. -/
theorem roles_terminated (h : IsStatement s) (hrun : ∀ c ∈ run, isRunChar c = true) (t : Text) :
    roles (s ++ ';' :: (run ++ t)) = roles s ++ (';', .terminator) :: (runRoles run ++ roles t) := by
  rw [roles_append (neutral_of_isRunChar (by decide) _), h.idle.roles_cons_run (by decide) hrun]
  rfl

/-- A statement without its terminator, before blanks and a comment. -/
theorem unterminated_append (h : IsStatement s) (hgap : ∀ c ∈ gap, isBlank c = true)
    (ht : t = [] ∨ ∃ u, t = '/' :: '/' :: u) (hline : '\n' ∉ t) : Unterminated (roles (s ++ (gap ++ t))) := by
  cases gap with
  | nil =>
    obtain rfl | ⟨u, rfl⟩ := ht
    · rw [List.nil_append, List.append_nil]
      exact h.unterminated
    · exact LineReader.unterminated_append_comment h.unterminated h.idle.quote fun hmem => hline (by simp [hmem])
  | cons c gap =>
    have hrun : ∀ d ∈ c :: gap, isRunChar d = true := fun d hd => by rw [isRunChar, hgap d hd, Bool.true_or]
    rw [List.forall_mem_cons] at hrun
    rw [List.cons_append, roles_append (neutral_of_isRunChar hrun.1 _), h.idle.roles_cons_run hrun.1 hrun.2]
    exact h.unterminated.append ((unterminated_runRoles hgap).append (unterminated_comment ht hline))

end IsStatement

namespace Drops

variable {line out : Text}

/-- **What comes of a line**: its terminators go or end the line, and nothing else goes but blanks. -/
theorem stripped (h : Drops line out) (hline : '\n' ∉ line) : Stripped (roles line) out := by
  induction h with
  | same h => exact stripped_of_unterminated h
  | joined hs hrun hheld hmore =>
    rw [List.mem_append, List.mem_cons, List.mem_append, not_or, not_or, not_or] at hline
    have hheld := Stripped.runs hrun hline.2.2.1 hheld
    have hafter := stripped_of_unterminated (unterminated_comment (hmore.imp id And.left) hline.2.2.2)
    rw [hs.roles_terminated hrun]
    exact (stripped_of_unterminated hs.unterminated).append (.terminator (hheld.append hafter))
  | @parted s run more out hs hrun _ h ih =>
    rw [List.mem_append, List.mem_cons, List.mem_append, not_or, not_or, not_or] at hline
    have hgone := Stripped.runs hrun hline.2.2.1 (List.nil_sublist _)
    rw [hs.roles_terminated hrun]
    exact (hs.trimEnd hline.1).2.append (.line (hgone.append (ih hline.2.2.2)))

/-- **What comes of a line, read again**: no terminator is left. -/
theorem unterminated (h : Drops line out) (hline : '\n' ∉ line) : Unterminated (roles out) := by
  induction h with
  | same h => exact h
  | joined hs hrun hheld hmore =>
    rw [List.mem_append, List.mem_cons, List.mem_append, not_or, not_or, not_or] at hline
    have hblank : ∀ c ∈ _, isBlank c = true := fun c hc => (List.mem_filter.1 (hheld.subset hc)).2
    exact hs.unterminated_append hblank (hmore.imp id And.left) hline.2.2.2
  | parted hs hrun _ h ih =>
    rw [List.mem_append, List.mem_cons, List.mem_append, not_or, not_or, not_or] at hline
    rw [roles_append_newline]
    refine (hs.trimEnd hline.1).1.unterminated.append (List.forall_mem_cons.2 ⟨by decide, ih hline.2.2.2⟩)

end Drops

/-! ## Texts -/

theorem stripTerminators_of_notMem {line : Text} (h : '\n' ∉ line) : stripTerminators line = dropTerminators line := by
  rw [stripTerminators, Text.pieces_of_not_mem h]
  rfl

/-- Terminators are dropped line by line. -/
theorem stripTerminators_append_newline {line : Text} (h : '\n' ∉ line) (rest : Text) :
    stripTerminators (line ++ '\n' :: rest) = dropTerminators line ++ '\n' :: stripTerminators rest := by
  have hne : (rest.pieces '\n').map dropTerminators ≠ [] := by simp [Text.pieces_ne_nil]
  rw [stripTerminators, Text.pieces_append_cons h, List.map_cons, Text.join_cons hne, List.append_assoc]
  rfl

theorem stripped_text (t : Text) : Stripped (roles t) (stripTerminators t) := by
  induction t using Text.line_induction with
  | last line hline =>
    rw [stripTerminators_of_notMem hline]
    exact (drops_dropTerminators line hline).stripped hline
  | cons line rest hline ih =>
    rw [stripTerminators_append_newline hline, roles_append_newline]
    exact ((drops_dropTerminators line hline).stripped hline).append (.keep (by decide) ih)

theorem unterminated_stripTerminators (t : Text) : Unterminated (roles (stripTerminators t)) := by
  induction t using Text.line_induction with
  | last line hline =>
    rw [stripTerminators_of_notMem hline]
    exact (drops_dropTerminators line hline).unterminated hline
  | cons line rest hline ih =>
    rw [stripTerminators_append_newline hline, roles_append_newline]
    exact ((drops_dropTerminators line hline).unterminated hline).append (List.forall_mem_cons.2 ⟨by decide, ih⟩)

/-- **A text without terminators stays as it is**. -/
theorem stripTerminators_of_unterminated {t : Text} (h : Unterminated (roles t)) : stripTerminators t = t := by
  induction t using Text.line_induction with
  | last line hline =>
    rw [stripTerminators_of_notMem hline, LineReader.dropTerminators_eq_walk]
    exact LineReader.walk_of_unterminated rfl hline h []
  | cons line rest hline ih =>
    rw [roles_append_newline] at h
    have hfirst : Unterminated (roles line) := fun x hx => h x (List.mem_append_left _ hx)
    have hrest : Unterminated (roles rest) := fun x hx => h x (List.mem_append_right _ (List.mem_cons_of_mem _ hx))
    rw [stripTerminators_append_newline hline, ih hrest, LineReader.dropTerminators_eq_walk,
      LineReader.walk_of_unterminated rfl hline hfirst]
    rfl

/-- Whether a character is neither a blank nor a semicolon. -/
def isLasting (c : Char) : Bool := !isRunChar c

theorem filter_stripTerminators (t : Text) : (stripTerminators t).filter isLasting = t.filter isLasting := by
  have hsheds : Sheds fun s s' => s'.filter isLasting = s.filter isLasting :=
    { refl := fun _ => rfl
      trans := fun hs ht => ht.trans hs
      append := fun hs ht => by rw [List.filter_append, List.filter_append, hs, ht]
      blank := fun hc => by simp [isLasting, isRunChar, hc]
      semicolon := by decide
      newline := by decide }
  exact hsheds.stripTerminators t

/-- **Terminators are dropped, and nothing else**. But for blanks and semicolons a text keeps all its characters. As
its lines are read, terminators go or end a line, and the parts in literals, in comments and in the headers of loops
stay as they are. Read again, the text has no terminators, and it is not changed a second time. -/
theorem stripped_stripTerminators (t : Text) :
    (stripTerminators t).filter isLasting = t.filter isLasting ∧
      Stripped (roles t) (stripTerminators t) ∧
      (∀ xs kept ys, roles t = xs ++ (kept ++ ys) → (∀ x ∈ kept, x.2 ∈ [Role.literal, .comment, .clause]) →
        ∃ u v, stripTerminators t = u ++ (kept.map Prod.fst ++ v) ∧ Stripped xs u ∧ Stripped ys v) ∧
      Unterminated (roles (stripTerminators t)) ∧
      stripTerminators (stripTerminators t) = stripTerminators t := by
  have hstripped := stripped_text t
  have hclean := unterminated_stripTerminators t
  refine ⟨filter_stripTerminators t, hstripped, ?_, hclean, stripTerminators_of_unterminated hclean⟩
  intro xs kept ys hsplit hkept
  rw [hsplit] at hstripped
  obtain ⟨u, w, hu, hxs, hrest⟩ := hstripped.exists_append
  obtain ⟨k, v, rfl, hk, hys⟩ := hrest.exists_append
  rw [hk.eq_of_kept hkept] at hu
  exact ⟨u, v, hu, hxs, hys⟩

/-- A loop whose body has a literal with a semicolon and ends with a comment. -/
theorem stripped_stripTerminators_loop :
    let t : Text := "for (;;) \x7b s = \"a;b\"; t() ; // c;"
    stripTerminators t = "for (;;) \x7b s = \"a;b\"\nt()  // c;".toList ∧
      ((roles t).take 6).drop 5 = [(';', .clause)] ∧
      ∃ u v, stripTerminators t = u ++ ("\"a;b\"".toList ++ v) ∧ Stripped ((roles t).take 15) u ∧
        Stripped ((roles t).drop 20) v := by
  intro t
  have hsplit : roles t =
      (roles t).take 15 ++ ("\"a;b\"".toList.map (fun c => (c, .literal)) ++ (roles t).drop 20) := by
    decide +kernel
  obtain ⟨-, -, hkept, -, -⟩ := stripped_stripTerminators t
  refine ⟨by decide +kernel, by decide +kernel, ?_⟩
  exact hkept _ _ _ hsplit (by decide)

end GoDraft
