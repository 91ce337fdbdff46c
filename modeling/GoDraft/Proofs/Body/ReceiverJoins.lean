import GoDraft.Proofs.Body.ReceiverRules

/-!
# GoDraft — joined strings do not assign to the receiver

A literal that is joined to a value becomes a call. Where the value comes last, it was read as far as it goes, and a
parenthesis is written behind it: a name that follows could stand alone there, had the value not gone on with it.

* `covers_joinLeftRule` — the value comes first;
* `stopsAt_of_matchAt?_joinRight` — a value that comes last is read as far as it goes;
* `Watch.Near`, `near_joinRight` — how far the machine may be off behind such a value;
* `assigns_of_joinRight` — the value comes last.
-/

namespace GoDraft

open Text

/-- A literal joined to a value on its right. -/
def joinRightRule : Rule :=
  ⟨.group 1 Pattern.stringLiteral ++ Pattern.blanks ++ "+" ++ Pattern.blanks ++ .group 2 operand,
    ["fmt.Sprintf(\"%s%v\", ", .group 1, ", ", .group 2, ")"]⟩

/-- A literal joined to a value on its left. -/
def joinLeftRule : Rule :=
  ⟨.group 1 operand ++ Pattern.blanks ++ "+" ++ Pattern.blanks ++ .group 2 Pattern.stringLiteral,
    ["fmt.Sprintf(\"%v%s\", ", .group 1, ", ", .group 2, ")"]⟩

theorem concatRules_eq : concatRules = [joinRightRule, joinLeftRule] := rfl

/-- A value is a dotted name, or such a name with arguments. -/
theorem exists_of_fits_operand {s : Text} {g : Notes} (h : operand.Fits s g) :
    ∃ name, (name ≠ [] ∧ IsDotted name) ∧ (s = name ∨ ∃ args, s = name ++ "(".toList ++ (args ++ ")".toList)) := by
  obtain ⟨name, _, _, _, hname, hcall | ⟨rfl, -⟩, rfl, -⟩ := h
  · obtain ⟨_, _, _, _, ⟨_, _, args, _, hopen, -, rfl, -⟩, hclose, rfl, -⟩ := hcall
    refine ⟨name, Pattern.fits_many1_one hname, .inr ⟨args, ?_⟩⟩
    rw [(Pattern.fits_text hopen).1, (Pattern.fits_text hclose).1]
    simp
  · exact ⟨name, Pattern.fits_many1_one hname, .inl (List.append_nil name)⟩

theorem covers_joinLeftRule {k : Cursor} {m : Match} (hm : joinLeftRule.pattern.matchAt? k = some m) :
    Covers false false m.span.text (joinLeftRule.template.fill m) := by
  have hspelled : joinLeftRule.pattern.SpelledBy [.group 1 operand, .filler Pattern.blanks, .text "+",
      .filler Pattern.blanks, .group 2 Pattern.stringLiteral] :=
    ((((Pattern.SpelledBy.group rfl).seq (.filler rfl)).seq (.text _)).seq (.filler rfl)).seq (.group rfl)
  obtain ⟨-, -, g, hfits, hgroup⟩ := Pattern.fits_of_matchAt? hm
  have hspells := hspelled _ g hfits
  have hfill : joinLeftRule.template.fill m = "fmt.Sprintf(\"%v%s\", ".toList ++ (m.group 1 ++ (", ".toList ++
      (m.group 2 ++ (")".toList ++ [])))) := rfl
  rw [hfill, hgroup 0, hgroup 1]
  generalize m.span.text = s at hspells
  obtain ⟨value, s, g, hvalue, rfl, rfl, h₁⟩ := hspells.of_group
  obtain ⟨b, s, hb, rfl, h₂⟩ := h₁.of_filler
  obtain ⟨s, rfl, h₃⟩ := h₂.of_text
  obtain ⟨b', s, hb', rfl, h₄⟩ := h₃.of_filler
  obtain ⟨literal, s, g, hliteral, rfl, rfl, h₅⟩ := h₄.of_group
  obtain ⟨rfl, rfl⟩ := h₅.eq_nil
  show Covers false false _ ("fmt.Sprintf(\"%v%s\", ".toList ++ (value ++ (", ".toList ++ (literal ++ ")".toList))))
  obtain ⟨content, rfl⟩ := exists_of_fits_stringLiteral hliteral
  have hblanks : Calm false b := calm_of_isBlank (Pattern.fits_many_one hb)
  -- the blanks before the literal are left out, and a parenthesis stands behind it
  have hbehind : Covers false false (b' ++ ("\"".toList ++ content ++ "\"".toList))
      ("\"".toList ++ content ++ ("\"".toList ++ ")".toList)) :=
    (Covers.drop fun c hc => isLoose_of_isBlank (Pattern.fits_many_one hb' c hc)).append
      ((Covers.refl id _).append (.of_settles (by decide) (by decide)))
  have hbefore : Covers false false (value ++ (b ++ "+".toList))
      ("fmt.Sprintf(\"%v%s\", ".toList ++ (value ++ ", ".toList)) := by
    obtain ⟨name, hname, rfl | ⟨args, rfl⟩⟩ := exists_of_fits_operand hvalue
    · exact .of_settles ((calm_of_isDotted hname.2).settles (hblanks.settles (by decide)))
        (Calm.settles (by decide) ((calm_of_isDotted hname.2).settles (by decide)))
    · have hopen : Covers false false (name ++ "(".toList) ("fmt.Sprintf(\"%v%s\", ".toList ++ (name ++ "(".toList)) :=
        .of_settles ((calm_of_isDotted hname.2).settles (by decide))
          (Calm.settles (by decide) ((calm_of_isDotted hname.2).settles (by decide)))
      have hclose : Covers false false (")".toList ++ (b ++ "+".toList)) "), ".toList :=
        .of_settles (Calm.settles (by decide) (hblanks.settles (by decide))) (by decide)
      have hcall := hopen.append ((Covers.refl id args).append hclose)
      simp only [List.append_assoc] at hcall ⊢
      exact hcall
  simpa only [List.append_assoc, List.append_nil] using hbefore.append hbehind

/-- A value goes on as long as a dotted name does, or has arguments. -/
theorem stopsAt_of_first_operand {v u : View} (h : operand.First v u) : stopsAt isDottedChar u.rest = true ∨
    ∃ w ∈ (Pattern.dotted ++ ("(" ++ Pattern.many (Pattern.noneOf "()"))).views v, w.rest = ')' :: u.rest := by
  obtain ⟨b, t, g⟩ := v
  -- the best view of the name is behind all its characters
  obtain ⟨x, hx, -⟩ := h.exists_of_seq
  have hne : t.takeWhile isDottedChar ≠ [] := by
    obtain ⟨y, hy, -⟩ := List.mem_flatMap.mp hx
    cases t with
    | nil => cases hy
    | cons c t =>
      rw [Pattern.views_one_cons] at hy
      split at hy
      · rename_i hc
        have hdotted : isDottedChar c = true := hc
        rw [List.takeWhile_cons_of_pos hdotted]
        exact List.cons_ne_nil _ _
      · cases hy
  have hname := Pattern.First.run1 hne (fun c hc => List.mem_takeWhile_imp hc) (stopsAt_dropWhile isDottedChar t) b g
  rw [List.takeWhile_append_dropWhile] at hname
  generalize hv : View.mk (lastOf b (t.takeWhile isDottedChar)) (t.dropWhile isDottedChar) g = v at hname
  -- behind it, the arguments are preferred to none
  have hbest {w : View} (hw : (Pattern.optional ("(" ++ Pattern.many (Pattern.noneOf "()") ++ ")")).First v w) :
      w = u := Option.some.inj ((hname.seq hw).symm.trans h)
  cases hcall : (("(" : Pattern) ++ Pattern.many (Pattern.noneOf "()") ++ ")").views v with
  | nil =>
    left
    have hnone : (Pattern.optional ("(" ++ Pattern.many (Pattern.noneOf "()") ++ ")")).First v v := by
      rw [Pattern.First, Pattern.optional, Pattern.views, hcall]
      rfl
    rw [← hbest hnone, ← hv]
    exact stopsAt_dropWhile isDottedChar t
  | cons w ws =>
    right
    have hfirst : (Pattern.optional ("(" ++ Pattern.many (Pattern.noneOf "()") ++ ")")).First v w := by
      rw [Pattern.First, Pattern.optional, Pattern.views, hcall]
      rfl
    obtain rfl := hbest hfirst
    have hmem : w ∈ (("(" : Pattern) ++ Pattern.many (Pattern.noneOf "()") ++ ")").views v := hcall ▸ List.mem_cons_self
    obtain ⟨y, hy, hw⟩ := List.mem_flatMap.mp hmem
    exact ⟨y, List.mem_flatMap.mpr ⟨v, List.mem_of_head? hname, hy⟩, (Pattern.exists_of_mem_views_text hw).1⟩

theorem stopsAt_of_matchAt?_joinRight {b : Option Char} {offset : Nat} {t : Text} {m : Match}
    (hm : joinRightRule.pattern.matchAt? ⟨b, offset, m.span.text ++ t⟩ = some m) :
    stopsAt isDottedChar t = true ∨ m.span.text.getLast? = some ')' := by
  obtain ⟨u, s, hfirst, hsplit, his⟩ := Pattern.exists_first_of_matchAt? hm
  have htext : m.span.text = s := his.group_zero
  rw [htext] at hsplit
  obtain rfl : t = u.rest := List.append_cancel_left hsplit
  obtain ⟨w, hw, hgroup⟩ := hfirst.exists_of_seq
  obtain ⟨v, hoperand, rfl⟩ : ∃ v, operand.First w v ∧ v.note 2 w = u := by
    rw [Pattern.First, Pattern.views, List.head?_map, Option.map_eq_some_iff] at hgroup
    exact hgroup
  rcases stopsAt_of_first_operand hoperand with hstops | ⟨y, hy, hrest⟩
  · exact .inl hstops
  · right
    have hmem : y ∈ (Pattern.group 1 Pattern.stringLiteral ++ Pattern.blanks ++ "+" ++ Pattern.blanks ++
        (Pattern.dotted ++ ("(" ++ Pattern.many (Pattern.noneOf "()")))).views ⟨b, m.span.text ++ v.rest, []⟩ := by
      rw [Pattern.views_seq]
      exact List.mem_flatMap.mpr ⟨w, hw, hy⟩
    obtain ⟨z, -, -, hz⟩ := Pattern.exists_fits_of_mem_views hmem
    rw [hrest, List.append_cons] at hz
    rw [List.append_cancel_right hz, List.getLast?_concat]

/-- The machine is caught from the first state no sooner than from the second where a text follows: also behind a value
that has been closed, where the text goes on with no dotted name. -/
def Watch.Near (s : Text) (q' q : Watch) : Prop :=
  under q' q = true ∨ q' = .free ∧ (q = .word ∨ q = .name) ∧ stopsAt isDottedChar s = true

theorem Watch.Near.step {q q' : Watch} {c : Char} {s : Text} (h : Near (c :: s) q' q) :
    under (q'.step false (.of c)) (q.step false (.of c)) = true := by
  have hnear : ∀ (q : Watch) (k : Glyph), q = .word ∨ q = .name → ¬ (k = .receiver ∨ k = .letter ∨ k = .dot) →
      under (Watch.free.step false k) (q.step false k) = true := by decide
  rcases h with h | ⟨rfl, hq, hstops⟩
  · exact under_step id h
  · have hc : isDottedChar c = false := by simpa [stopsAt] using hstops
    rw [(Glyph.of_front c).1, decide_eq_false_iff_not] at hc
    exact hnear q _ hq hc

theorem Watch.Near.settled {q q' : Watch} {s : Text} (h : Near s q' q) : under q'.settled q.settled = true := by
  rcases h with h | ⟨rfl, rfl | rfl, -⟩
  · exact under_settled h
  · decide
  · decide

/-- Behind a literal and the sign that joins it, the machine begins anew. -/
theorem run_literal (content : Text) {b b' : Text} (hb : ∀ c ∈ b, isBlank c = true)
    (hb' : ∀ c ∈ b', isBlank c = true) {q q' : Watch} (h : Watch.under q'.settled q.settled = true) :
    Watch.run false q ("\"".toList ++ (content ++ ("\"".toList ++ (b ++ ("+".toList ++ b'))))) = .caught ∨
      Watch.run false q ("\"".toList ++ (content ++ ("\"".toList ++ (b ++ ("+".toList ++ b'))))) = .free ∧
      Watch.run false q' ("fmt.Sprintf(\"%s%v\", \"".toList ++ (content ++ "\", ".toList)) = .free := by
  have hopen : Settles false "\"".toList := by decide
  have hopen' : Settles false "fmt.Sprintf(\"%s%v\", \"".toList := by decide
  have hplus : Settles false "+".toList := by decide
  have hclose : Settles false ("\"".toList ++ (b ++ ("+".toList ++ b'))) :=
    hopen.calm.settles ((calm_of_isBlank hb).settles (hplus.append_loose fun c hc => isLoose_of_isBlank (hb' c hc)))
  have hclose' : Settles false "\", ".toList := by decide
  have hcontent := Watch.settled_of_under (Covers.refl (p := false) id content _ _ h)
  rwa [Watch.run_append, Watch.run_append, hclose, hopen, Watch.run_append, Watch.run_append, hclose', hopen']

/-- Where a literal is joined to a value on its right, the machine stays near. -/
theorem near_joinRight {b : Option Char} {offset : Nat} {m : Match} {s : Text}
    (hm : joinRightRule.pattern.matchAt? ⟨b, offset, m.span.text ++ s⟩ = some m) {q q' : Watch}
    (h : Watch.under q'.settled q.settled = true) :
    Watch.Near s (Watch.run false q' (joinRightRule.template.fill m)) (Watch.run false q m.span.text) := by
  have hstops := stopsAt_of_matchAt?_joinRight hm
  have hspelled : joinRightRule.pattern.SpelledBy [.group 1 Pattern.stringLiteral, .filler Pattern.blanks, .text "+",
      .filler Pattern.blanks, .group 2 operand] :=
    ((((Pattern.SpelledBy.group rfl).seq (.filler rfl)).seq (.text _)).seq (.filler rfl)).seq (.group rfl)
  obtain ⟨-, -, g, hfits, hgroup⟩ := Pattern.fits_of_matchAt? hm
  have hspells := hspelled _ g hfits
  have hfill : joinRightRule.template.fill m = "fmt.Sprintf(\"%s%v\", ".toList ++ (m.group 1 ++ (", ".toList ++
      (m.group 2 ++ (")".toList ++ [])))) := rfl
  rw [hfill, hgroup 0, hgroup 1]
  generalize m.span.text = t at hspells hstops
  obtain ⟨literal, t, g, hliteral, rfl, rfl, h₁⟩ := hspells.of_group
  obtain ⟨b, t, hb, rfl, h₂⟩ := h₁.of_filler
  obtain ⟨t, rfl, h₃⟩ := h₂.of_text
  obtain ⟨b', t, hb', rfl, h₄⟩ := h₃.of_filler
  obtain ⟨value, t, g, hvalue, rfl, rfl, h₅⟩ := h₄.of_group
  obtain ⟨rfl, rfl⟩ := h₅.eq_nil
  show Watch.Near s (Watch.run false q' ("fmt.Sprintf(\"%s%v\", ".toList ++ (literal ++ (", ".toList ++ (value ++
    ")".toList))))) _
  obtain ⟨content, rfl⟩ := exists_of_fits_stringLiteral hliteral
  have hparts : "\"".toList ++ (content ++ "\"".toList) ++ (b ++ ("+".toList ++ (b' ++ (value ++ [])))) =
      "\"".toList ++ (content ++ ("\"".toList ++ (b ++ ("+".toList ++ b')))) ++ value := by simp
  have hparts' : "fmt.Sprintf(\"%s%v\", ".toList ++ ("\"".toList ++ (content ++ "\"".toList) ++ (", ".toList ++
      (value ++ ")".toList))) =
        "fmt.Sprintf(\"%s%v\", \"".toList ++ (content ++ "\", ".toList) ++ (value ++ ")".toList) := by simp
  rw [hparts, hparts', Watch.run_append false q, Watch.run_append false q']
  rw [hparts] at hstops
  -- behind the literal the machine has caught something, or it is free in both texts
  rcases run_literal content (Pattern.fits_many_one hb) (Pattern.fits_many_one hb') h with hq | ⟨hq, hq'⟩
  · rw [hq, Watch.run_caught]
    exact .inl (Watch.under_caught _)
  · rw [hq, hq']
    obtain ⟨name, hname, rfl | ⟨args, rfl⟩⟩ := exists_of_fits_operand hvalue
    · -- the name goes on as far as it can
      refine .inr ⟨(calm_of_isDotted hname.2).settles (by decide) .free, run_free_dotted hname.1 hname.2, ?_⟩
      refine hstops.resolve_right fun hlast => ?_
      rw [List.getLast?_append_of_ne_nil _ hname.1] at hlast
      exact absurd (hname.2 _ (List.mem_of_getLast? hlast)) (by decide)
    · -- a call ends with its own parenthesis, whatever follows
      have hcall : Covers false false (name ++ "(".toList ++ args ++ ")".toList)
          (name ++ "(".toList ++ args ++ (")".toList ++ ")".toList)) :=
        (Covers.refl id _).append (.of_settles (by decide) (by decide))
      simp only [List.append_assoc] at hcall ⊢
      exact .inl (hcall .free .free (Watch.under_refl _))

/-- **A literal joined to a value on its right does not make an assignment to the receiver.** -/
theorem assigns_of_joinRight {t : Text} (h : Assigns false receiver (joinRightRule.pass.apply t)) :
    Assigns false receiver t := by
  rw [← isCaught_run_iff] at h ⊢
  have hrun := Pattern.replaceFrom_induct_behind (p := joinRightRule.pattern) (f := joinRightRule.template.fill)
    (P := fun _ _ s s' => ∀ q q', Watch.Near s q' q → (Watch.run false q' s').isCaught = true →
      (Watch.run false q s).isCaught = true) ?_ ?_ ?_ t none 0 0
  · exact hrun .free .free (.inl (Watch.under_refl _)) h
  · rintro b q q' (hq | ⟨rfl, -⟩) hcaught
    · exact Watch.isCaught_of_under hq hcaught
    · cases hcaught
  · intro b c ms s s' ih q q' hq
    exact ih _ _ (.inl hq.step)
  · intro b offset m ms s s' hm ih q q' hq
    rw [Watch.run_append, Watch.run_append]
    exact ih _ _ (near_joinRight hm hq.settled)

end GoDraft
