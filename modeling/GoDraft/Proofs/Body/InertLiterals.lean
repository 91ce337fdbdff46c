import GoDraft.Proofs.Body.Literals

/-!
# GoDraft — literals that come through printing

Whether a string literal comes through printing can be read off the literal. Its content must look like none
of what the passes search for: an end of a call, a block or a loop, a result, the start of a new object, or a
typed declaration. A pass that finds nothing in the literal finds nothing in the statement that prints it
either, since no match begins before the literal or goes on behind its content. The one exception are new
objects, whose arguments may end with the call.

* `Pattern.KeepsToLiteral` — patterns whose matches keep to the literal;
* `newHead`, `literalTraps` — what must not be found in a literal;
* `Inert` — content that looks like none of what the passes search for;
* `recast_javaPrint_eq_goPrint_iff_inert` — a literal comes through exactly if its content is inert.
-/

namespace GoDraft

open Text

/-! ## Patterns that keep to a literal -/

namespace Pattern

/-- What the pattern finds in a statement that prints a literal, it finds in the literal: it has no match in the
call before it or at one of the characters behind the content, and none that goes beyond the content. -/
structure KeepsToLiteral (p : Pattern) : Prop where
  call : ∀ tail, p.Skips none ("fmt.Println(".toList ++ ['"']) tail
  quote : ∀ b tail, p.views ⟨b, '"' :: tail, []⟩ = []
  paren : ∀ b tail, p.views ⟨b, ')' :: tail, []⟩ = []
  inside : ∀ {c r s rest g}, '"' ∉ c → r ∈ [[], [')']] → c ++ '"' :: r = s ++ rest → p.Fits s g →
    s.length ≤ c.length

/-- A pattern that ends with a character of its own stops before the literal does. -/
theorem length_le_of_ends {p : Pattern} {x : Char} (hx : x ∉ ['"', ')']) {c r s rest : Text} {g : Notes}
    (hr : r ∈ [[], [')']]) (hsplit : c ++ '"' :: r = s ++ rest) (h : (p ++ text [x]).Fits s g) :
    s.length ≤ c.length := by
  obtain ⟨s₁, _, s₂, _, -, hs₂, rfl, -⟩ := h
  obtain ⟨rfl, -⟩ := fits_text hs₂
  rcases List.append_eq_append_iff.mp hsplit with ⟨y, hy, hrest⟩ | ⟨y, hy, -⟩
  · -- the last character would stand behind the content
    by_cases hnil : y = []
    · rw [hy, hnil, List.append_nil]
    · exfalso
      obtain ⟨y', z, rfl⟩ := (List.eq_nil_or_concat y).resolve_left hnil
      rw [List.concat_eq_append, ← List.append_assoc] at hy
      obtain rfl : x = z := by simpa using (List.append_inj' hy rfl).2
      have hmem : x ∈ '"' :: r := by
        rw [hrest]
        simp
      have hsub : ∀ r ∈ [[], [')']], ∀ z ∈ '"' :: r, z ∈ ['"', ')'] := by decide
      exact hx (hsub r hr x hmem)
  · rw [hy]
    exact (List.prefix_append _ y).length_le

theorem KeywordLed.keepsToLiteral {p : Pattern} {kw : Text} (h : p.KeywordLed kw)
    (hkw : kw ≠ ['f', 'm', 't'] ∧ kw ≠ ['P', 'r', 'i', 'n', 't', 'l', 'n'])
    (hinside : ∀ {c r s rest g}, r ∈ [[], [')']] → c ++ '"' :: r = s ++ rest → p.Fits s g →
      s.length ≤ c.length) : p.KeepsToLiteral where
  call tail := by
    have hchars : "fmt.Println(".toList ++ ['"'] =
        (['f', 'm', 't'] ++ (['.'] ++ (['P', 'r', 'i', 'n', 't', 'l', 'n'] ++ ['(', '"']))) := by decide
    have hsigns : ∀ {t : Text}, (∀ d ∈ t, isWordChar d = false) → ∀ b tail, p.Skips b t tail :=
      fun ht => skips_of_forall_rejects fun d hd => h.rejects (ht d hd)
    rw [hchars]
    refine skips_append (h.skips_name (by decide) hkw.1.symm rfl none) ?_
    refine skips_append (hsigns (by decide) _ _) ?_
    exact skips_append (h.skips_name (by decide) hkw.2.symm rfl _) (hsigns (by decide) _ _)
  quote b tail := h.rejects (by decide) _ rfl
  paren b tail := h.rejects (by decide) _ rfl
  inside _ := hinside

/-- What holds of a match wherever it stands holds along lists of matches that read the same. -/
theorem forall_mem_of_forall₂ {P : Match → Prop} {d : Nat} {ms ms' : List Match}
    (hP : ∀ {d m m'}, Match.Like d m m' → (P m ↔ P m')) (h : List.Forall₂ (Match.Like d) ms ms') :
    (∀ m ∈ ms, P m) ↔ ∀ m ∈ ms', P m := by
  induction h with
  | nil => exact Iff.rfl
  | cons hlike _ ih => rw [List.forall_mem_cons, List.forall_mem_cons, hP hlike, ih]

/-- No match that begins in the literal goes beyond its content. -/
theorem KeepsToLiteral.stop_lt {p : Pattern} (hp : p.KeepsToLiteral) {c r : Text} (hc : '"' ∉ c)
    (hr : r ∈ [[], [')']]) (b : Option Char) (offset : Nat) : ∀ m ∈ p.findAllFrom b offset 0 ((c ++ ['"']) ++ r),
      m.start < offset + Text.size (c ++ ['"']) → m.stop < offset + Text.size (c ++ ['"']) := by
  intro m hm hstart
  obtain ⟨u, s, rest, g, hsplit, hs, hfits, hmstart, hmstop⟩ := (exists_of_mem_findAllFrom hm).exists_fits
  rw [hmstart] at hstart
  rw [hmstop]
  have hquote : Text.size ['"'] = 1 := by decide
  rw [Text.size_append, hquote] at hstart ⊢
  rw [List.append_assoc] at hsplit
  rcases List.append_eq_append_iff.mp hsplit with ⟨y, rfl, hrest⟩ | ⟨y, rfl, hrest⟩
  · -- a match that begins at the closing quote reads nothing
    cases y with
    | nil =>
      have hlength := hp.inside List.not_mem_nil hr (show [] ++ '"' :: r = s ++ rest from hrest) hfits
      exact absurd (List.length_eq_zero_iff.mp (Nat.le_zero.mp hlength)) hs
    | cons d y =>
      rw [Text.size_append, Text.size_cons] at hstart
      have hd := d.utf8Size_pos
      omega
  · have hlength := hp.inside (fun hmem => hc (List.mem_append_right u hmem)) hr hrest.symm hfits
    obtain ⟨z, rfl⟩ : s <+: y :=
      List.prefix_of_prefix_length_le (List.prefix_append s rest) (hrest ▸ List.prefix_append y _) hlength
    rw [Text.size_append, Text.size_append]
    omega

/-- What a pattern that keeps to a literal finds in the statement that prints it, it finds in the literal. -/
theorem KeepsToLiteral.forall_findAll_iff {p : Pattern} (hp : p.KeepsToLiteral) {P : Match → Prop}
    (hP : ∀ {d m m'}, Match.Like d m m' → (P m ↔ P m')) {c : Text} (hc : '"' ∉ c) :
    (∀ m ∈ p.findAll (goPrint c), P m) ↔ ∀ m ∈ p.findAll (quoted c), P m := by
  -- both searches come to the content with the opening quote before it
  have hgo : p.findAll (goPrint c) = p.findAllFrom (some '"') (1 + 12) 0 ((c ++ ['"']) ++ [')']) := by
    have hskips := findAllFrom_skips (hp.call ((c ++ ['"']) ++ [')'])) 0
    have hsplit : goPrint c = ("fmt.Println(".toList ++ ['"']) ++ ((c ++ ['"']) ++ [')']) := by
      rw [goPrint_eq]
      simp
    rw [findAll, hsplit, hskips]
    rfl
  have hliteral : p.findAll (quoted c) = p.findAllFrom (some '"') 1 0 ((c ++ ['"']) ++ []) := by
    have hskips : p.Skips none ['"'] ((c ++ ['"']) ++ []) := ⟨hp.quote none _, trivial⟩
    have hsplit : quoted c = ['"'] ++ ((c ++ ['"']) ++ []) := by
      rw [quoted, List.append_nil]
      rfl
    rw [findAll, hsplit, findAllFrom_skips hskips]
    rfl
  obtain ⟨ms, ms', hms, hms', hlike, -⟩ := findAllFrom_common (p := p) (b := some '"') (Nat.zero_le _)
    (hp.stop_lt hc (r := []) (by simp) _ (1 + 12)) (hp.stop_lt hc (r := [')']) (by simp) _ (1 + 12))
  have hend (b : Option Char) (offset : Nat) : p.findAllFrom b offset 0 [')'] = [] :=
    findAllFrom_none (matchAt?_eq_none_iff.mpr (hp.paren b []))
  rw [hend, List.append_nil] at hms'
  rw [findAllFrom, List.append_nil ms] at hms
  rw [hgo, hms', hliteral, ← forall_mem_of_forall₂ hP hlike, ← hms]
  exact (forall_mem_of_forall₂ hP (findAllFrom_shift 12 _ _ _ _)).symm

theorem KeepsToLiteral.findAll_eq_nil_iff {p : Pattern} (hp : p.KeepsToLiteral) {c : Text} (hc : '"' ∉ c) :
    p.findAll (goPrint c) = [] ↔ p.findAll (quoted c) = [] := by
  have hiff := hp.forall_findAll_iff (P := fun _ => False) (fun _ => Iff.rfl) hc
  rw [List.eq_nil_iff_forall_not_mem, List.eq_nil_iff_forall_not_mem]
  exact hiff

end Pattern

/-! ## The rules -/

open Pattern

/-- The start of a new object, up to its arguments. -/
def newHead : Pattern := wordEdge ++ "new" ++ blanks1 ++ group 1 word ++ "("

/-- What must not stand in a literal: blocks and loops, results and new objects. -/
def literalTraps : List Pattern := newHead :: (returnRule :: controlRules).map Rule.pattern

theorem keywordLed_newHead : newHead.KeywordLed "new" where
  views := ⟨blanks1 ++ (group 1 word ++ text "("), by decide, fun v => by simp only [newHead, views_assoc]⟩
  head := ⟨_, _, rfl, by decide⟩
  plain := by decide

theorem keepsToLiteral_untilRule : untilRule.pattern.KeepsToLiteral := by
  have hrejects : ∀ {x : Char}, x ≠ '\x7d' → untilRule.pattern.Rejects x := by
    intro x hx v hv
    have hviews : untilRule.pattern.views v = (text "\x7d" ++ (blanks ++ (text "while" ++ (blanks ++
        (text "(" ++ (group 1 someOfLine ++ (text ")" ++ (blanks ++ text ";")))))))).views v := by
      simp only [untilRule, views_assoc]
    rw [hviews]
    exact text_rejects hx [] _ v hv
  refine ⟨fun tail => ?_, fun b tail => ?_, fun b tail => ?_, fun _ hr hsplit h => ?_⟩
  · have hne : ∀ x ∈ "fmt.Println(".toList ++ ['"'], x ≠ '\x7d' := by decide
    exact skips_of_forall_rejects (fun x hx => hrejects (hne x hx)) none tail
  · exact hrejects (by decide) _ rfl
  · exact hrejects (by decide) _ rfl
  · exact length_le_of_ends (by decide) hr hsplit h

theorem keepsToLiteral_of_mem : ∀ p ∈ literalTraps, p.KeepsToLiteral := by
  simp only [literalTraps, controlRules, List.map_cons, List.map_nil, List.forall_mem_cons]
  refine ⟨keywordLed_newHead.keepsToLiteral (by decide) ?_, keywordLed_returnRule.keepsToLiteral (by decide) ?_,
    keywordLed_ifRule.keepsToLiteral (by decide) ?_, keywordLed_whileRule.keepsToLiteral (by decide) ?_,
    keywordLed_forRule.keepsToLiteral (by decide) ?_, keywordLed_doRule.keepsToLiteral (by decide) ?_,
    keepsToLiteral_untilRule, by simp⟩
  all_goals exact fun hr hsplit h => length_le_of_ends (by decide) hr hsplit h

/-! ## Declarations -/

/-- A text has no double quote or at least two. -/
def QuotesPaired (s : Text) : Prop := '"' ∈ s → 2 ≤ s.count '"'

theorem QuotesPaired.append {s t : Text} (hs : QuotesPaired s) (ht : QuotesPaired t) :
    QuotesPaired (s ++ t) := by
  intro hmem
  rw [List.count_append]
  rcases List.mem_append.mp hmem with h | h
  · have := hs h
    omega
  · have := ht h
    omega

theorem quotesPaired_of_not_mem {s : Text} (h : '"' ∉ s) : QuotesPaired s := fun hmem => absurd hmem h

theorem quotesPaired_stringLiteral {s : Text} {g : Notes} (h : stringLiteral.Fits s g) : QuotesPaired s := by
  obtain ⟨_, _, s₃, _, ⟨s₁, _, s₂, _, hs₁, -, rfl, -⟩, hs₃, rfl, -⟩ := h
  obtain ⟨rfl, -⟩ := fits_text hs₁
  obtain ⟨rfl, -⟩ := fits_text hs₃
  intro _
  have hone : List.count '"' "\"".toList = 1 := by decide
  rw [List.count_append, List.count_append, hone]
  omega

theorem quotesPaired_rounds {R : Text → Notes → Prop} (hR : ∀ s g, R s g → QuotesPaired s) {s : Text}
    {g : Notes} (h : Rounds R s g) : QuotesPaired s := by
  induction h with
  | done => exact quotesPaired_of_not_mem List.not_mem_nil
  | next first _ ih => exact (hR _ _ first).append ih

/-- A declaration is a start of a statement, words and blanks, an equals sign and a value. -/
theorem exists_of_fits_declarationPattern {s : Text} {g : Notes} (h : declarationPattern.Fits s g) :
    ∃ start front value, s = start ++ (front ++ '=' :: value) ∧ start ∈ [[], [';'], ['\x7b'], ['\x7d']] ∧
      (∀ x ∈ front, isSign x = false) ∧ QuotesPaired value := by
  obtain ⟨_, _, value, _, ⟨_, _, gap₃, _, ⟨_, _, sign, _, ⟨_, _, gap₂, _, ⟨_, _, name, _, ⟨_, _, gap₁, _,
    ⟨_, _, type, _, ⟨start, _, lead, _, ⟨_, hstart, -⟩, ⟨_, hlead, -⟩, rfl, -⟩, ⟨_, htype, -⟩, rfl, -⟩, hgap₁,
    rfl, -⟩, ⟨_, hname, -⟩, rfl, -⟩, hgap₂, rfl, -⟩, hsign, rfl, -⟩, hgap₃, rfl, -⟩, ⟨_, hvalue, -⟩, rfl, -⟩ := h
  obtain ⟨rfl, -⟩ := fits_text hsign
  -- the parts of the pattern in their order
  have hblank : ∀ {x : Char}, " \t".toList.elem x = true → isSign x = false := by
    intro x hx
    have hall : ∀ x ∈ " \t".toList, isSign x = false := by decide
    exact hall x (List.elem_iff.mp hx)
  have hequals : "=".toList = ['='] := by decide
  refine ⟨start, lead ++ (type ++ (gap₁ ++ (name ++ gap₂))), gap₃ ++ value, by simp [hequals], ?_, ?_, ?_⟩
  · rcases hstart with ⟨rfl, -⟩ | ⟨x, hx, rfl, -⟩
    · exact List.mem_cons_self
    · have hall : ∀ x ∈ ";\x7b\x7d".toList, [x] ∈ [[], [';'], ['\x7b'], ['\x7d']] := by decide
      exact hall x (List.elem_iff.mp hx)
  · simp only [List.forall_mem_append]
    exact ⟨fun x hx => hblank (fits_many_one hlead x hx),
      fun x hx => isSign_of_isWordChar ((fits_many1_one htype).2 x hx),
      fun x hx => hblank ((fits_many1_one hgap₁).2 x hx),
      fun x hx => isSign_of_isWordChar ((fits_many1_one hname).2 x hx),
      fun x hx => hblank (fits_many_one hgap₂ x hx)⟩
  · -- the value is made of whole literals and of characters that are no quotes
    have hpart : ∀ {stops : Text}, '"' ∈ stops → ∀ s g, (stringLiteral ||| noneOf stops).Fits s g →
        QuotesPaired s := by
      rintro stops hstops s g (hs | ⟨x, hx, rfl, -⟩)
      · exact quotesPaired_stringLiteral hs
      · apply quotesPaired_of_not_mem
        rw [List.mem_singleton]
        rintro rfl
        simp [hstops] at hx
    obtain ⟨_, _, rounds, _, hfirst, hrounds, rfl, -⟩ := hvalue
    apply QuotesPaired.append
    · apply quotesPaired_of_not_mem
      intro hmem
      have hall : '"' ∉ " \t".toList := by decide
      exact hall (List.elem_iff.mp (fits_many_one hgap₃ _ hmem))
    · exact (hpart (by decide) _ _ hfirst).append (quotesPaired_rounds (hpart (by decide)) hrounds)

theorem declarationPattern_leadsTo : declarationPattern.LeadsTo (· ∈ ['=', ';', '\x7b', '\x7d']) := by
  intro s g h
  obtain ⟨start, front, value, rfl, hstart, hfront, -⟩ := exists_of_fits_declarationPattern h
  fin_cases hstart
  · exact ⟨front, '=', value, rfl, hfront, by decide, by decide⟩
  all_goals exact ⟨[], _, front ++ '=' :: value, rfl, by simp, by decide, by decide⟩

theorem quotesPaired_of_fits_declarationPattern {s : Text} {g : Notes} (h : declarationPattern.Fits s g) :
    QuotesPaired s := by
  obtain ⟨start, front, value, rfl, hstart, hfront, hvalue⟩ := exists_of_fits_declarationPattern h
  have hstart' : ∀ start ∈ [[], [';'], ['\x7b'], ['\x7d']], '"' ∉ start := by decide
  refine (quotesPaired_of_not_mem (hstart' start hstart)).append ((quotesPaired_of_not_mem ?_).append ?_)
  · intro hmem
    exact absurd (hfront _ hmem) (by decide)
  · exact (quotesPaired_of_not_mem (s := ['=']) (by decide)).append hvalue

theorem keepsToLiteral_declarationPattern : declarationPattern.KeepsToLiteral where
  call tail := by
    apply declarationPattern_leadsTo.skips tail (by decide)
    intro x hx
    obtain rfl : '"' = x := by simpa using hx
    decide
  quote b tail := declarationPattern_leadsTo.views_eq_nil (s := []) (by simp) (by decide) (by decide) b tail
  paren b tail := declarationPattern_leadsTo.views_eq_nil (s := []) (by simp) (by decide) (by decide) b tail
  inside {c r s rest g} hc hr hsplit h := by
    -- the closing quote is the only one, so it is not read
    have hquote : '"' ∉ s := by
      intro hmem
      have htwo := quotesPaired_of_fits_declarationPattern h hmem
      have hend : ∀ r ∈ [[], [')']], List.count '"' ('"' :: r) = 1 := by decide
      have hcount := congrArg (List.count '"') hsplit
      rw [List.count_append, List.count_append, List.count_eq_zero_of_not_mem hc, hend r hr] at hcount
      omega
    rcases List.append_eq_append_iff.mp hsplit with ⟨y, rfl, hrest⟩ | ⟨y, rfl, -⟩
    · cases y with
      | nil => simp
      | cons d y =>
        obtain rfl : '"' = d := (List.cons.inj hrest).1
        exact absurd (by simp) hquote
    · exact (List.prefix_append s y).length_le

theorem leftAlone_congr {d : Nat} {m m' : Match} (h : Match.Like d m m') : LeftAlone m ↔ LeftAlone m' := by
  have hgroup (index : Nat) : m'.group (index + 1) = m.group (index + 1) := by
    rw [Match.group, Match.group, h.group?]
  rw [LeftAlone, LeftAlone, hgroup, hgroup]

/-! ## New objects and concatenations -/

/-- Where a parenthesis ends the line, a new object that begins has an end. -/
theorem views_newObjectRule_eq_nil_iff {t : Text} (ht : '\n' ∉ t) (b : Option Char) :
    newObjectRule.pattern.views ⟨b, t ++ [')'], []⟩ = [] ↔ newHead.views ⟨b, t ++ [')'], []⟩ = [] := by
  have hviews : newObjectRule.pattern.views ⟨b, t ++ [')'], []⟩ =
      (newHead ++ (group 2 someOfLine ++ text ")")).views ⟨b, t ++ [')'], []⟩ := views_assoc _ _ _ _
  rw [hviews]
  constructor
  · intro h
    rw [List.eq_nil_iff_forall_not_mem]
    intro x hx
    obtain ⟨s, g, hfits, hsplit⟩ := exists_fits_of_mem_views hx
    obtain ⟨s₁, _, s₂, _, -, hs₂, rfl, -⟩ := hfits
    obtain ⟨rfl, -⟩ := fits_text hs₂
    -- the parenthesis that ends the line is still to come
    obtain ⟨rest, hrest⟩ : ∃ rest, x.rest = rest ++ [')'] := by
      obtain hnil | ⟨rest, z, hz⟩ := List.eq_nil_or_concat x.rest
      · rw [hnil, List.append_nil] at hsplit
        exact absurd (List.append_inj' hsplit rfl).2 (by decide)
      · rw [hz, List.concat_eq_append, ← List.append_assoc] at hsplit
        obtain rfl : ')' = z := by simpa using (List.append_inj' hsplit rfl).2
        exact ⟨rest, by rw [hz, List.concat_eq_append]⟩
    have hline : '\n' ∉ rest := by
      intro hmem
      have hall : '\n' ∈ t ++ [')'] := by
        rw [hsplit, hrest]
        simp [hmem]
      simp [ht] at hall
    obtain ⟨b', t', notes⟩ := x
    obtain rfl : t' = rest ++ [')'] := hrest
    obtain ⟨u, hu⟩ := exists_first_someOfLine hline 2 [')'] [] b' notes
    rw [views_seq, List.flatMap_eq_nil_iff] at h
    have hnone : (group 2 someOfLine ++ text [')']).views ⟨b', rest ++ ([')'] ++ []), notes⟩ = [] := h _ hx
    rw [First, hnone] at hu
    cases hu
  · exact fun h => views_seq_of_eq_nil h

theorem findAll_newObjectRule_eq_nil_iff {c : Text} (hc : IsContent c) :
    newObjectRule.pattern.findAll (goPrint c) = [] ↔ newHead.findAll (goPrint c) = [] := by
  have hskips : ∀ {t : Text} {b : Option Char}, '\n' ∉ t →
      (newObjectRule.pattern.Skips b (t ++ [')']) [] ↔ newHead.Skips b (t ++ [')']) []) := by
    intro t
    induction t with
    | nil => exact fun h => and_congr (views_newObjectRule_eq_nil_iff h _) Iff.rfl
    | cons d t ih =>
      intro b h
      have hhere := views_newObjectRule_eq_nil_iff h b
      rw [List.mem_cons, not_or] at h
      rw [← List.append_nil (d :: t ++ [')'])] at hhere
      exact and_congr hhere (ih h.2)
  have hline : '\n' ∉ "fmt.Println(".toList ++ '"' :: (c ++ ['"']) := by
    have hnewline : '\n' ∉ c := hc.not_mem (by decide)
    simp [hnewline]
  have hsplit : goPrint c = ("fmt.Println(".toList ++ '"' :: (c ++ ['"'])) ++ [')'] := by
    rw [goPrint_eq]
    simp
  have hne : ∀ s g, newObjectRule.pattern.Fits s g → s ≠ [] :=
    (Has.text List.infix_rfl).right.ne_nil (by decide)
  have hne' : ∀ s g, newHead.Fits s g → s ≠ [] := (Has.text List.infix_rfl).right.ne_nil (by decide)
  rw [findAll_eq_nil_iff_skips hne, findAll_eq_nil_iff_skips hne', hsplit]
  exact hskips hline

/-- A text is cut at the first of a character in one way. -/
theorem Text.append_cons_inj {x : Char} {s s' : Text} : ∀ {u u' : Text}, x ∉ u → x ∉ u' →
    u ++ x :: s = u' ++ x :: s' → u = u' ∧ s = s'
  | [], [], _, _, h => ⟨rfl, (List.cons.inj h).2⟩
  | [], d :: u', _, hu', h => absurd ((List.cons.inj h).1 ▸ List.mem_cons_self) hu'
  | d :: u, [], hu, _, h => absurd ((List.cons.inj h).1 ▸ List.mem_cons_self) hu
  | d :: u, d' :: u', hu, hu', h => by
    rw [List.mem_cons, not_or] at hu hu'
    obtain ⟨rfl, hrest⟩ := List.cons.inj h
    obtain ⟨rfl, rfl⟩ := append_cons_inj hu.2 hu'.2 hrest
    exact ⟨rfl, rfl⟩

/-- The quotes of a literal are the only ones in the statement that prints it. -/
theorem eq_of_quotes {c u v w : Text} (hc : '"' ∉ c) (h : goPrint c = u ++ '"' :: (v ++ '"' :: w)) :
    u = "fmt.Println(".toList ∧ w = [')'] := by
  rw [goPrint_eq] at h
  have hcall : '"' ∉ "fmt.Println(".toList := by decide
  have hcount := congrArg (List.count '"') h
  simp only [List.count_append, List.count_cons_self, List.count_eq_zero_of_not_mem hc,
    List.count_eq_zero_of_not_mem hcall] at hcount
  rw [show List.count '"' [')'] = 0 from by decide] at hcount
  have hu : '"' ∉ u := List.count_eq_zero.mp (by omega)
  have hv : '"' ∉ v := List.count_eq_zero.mp (by omega)
  obtain ⟨hcall', hrest⟩ := Text.append_cons_inj hcall hu h
  obtain ⟨-, hend⟩ := Text.append_cons_inj hc hv hrest
  exact ⟨hcall'.symm, hend.symm⟩

/-- What stands before and behind the literal is joined to nothing. -/
theorem findAll_concatRules_eq_nil {c : Text} (hc : '"' ∉ c) :
    ∀ r ∈ concatRules, r.pattern.findAll (goPrint c) = [] := by
  have hliteral : ∀ {s : Text} {g : Notes}, stringLiteral.Fits s g → ∃ v, s = '"' :: (v ++ ['"']) := by
    rintro s g ⟨_, _, s₃, _, ⟨s₁, _, v, _, hs₁, -, rfl, -⟩, hs₃, rfl, -⟩
    obtain ⟨rfl, -⟩ := fits_text hs₁
    obtain ⟨rfl, -⟩ := fits_text hs₃
    have hquote : "\"".toList = ['"'] := by decide
    exact ⟨v, by rw [hquote]; simp⟩
  have hplus : "+".toList = ['+'] := by decide
  simp only [concatRules, List.forall_mem_cons]
  refine ⟨?_, ?_, by simp⟩
  · rw [List.eq_nil_iff_forall_not_mem]
    intro m hm
    obtain ⟨u, s, rest, g, hsplit, -, hfits, -, -⟩ := (exists_of_mem_findAllFrom hm).exists_fits
    obtain ⟨_, _, s₅, _, ⟨_, _, s₄, _, ⟨_, _, s₃, _, ⟨s₁, _, s₂, _, ⟨_, hs₁, -⟩, -, rfl, -⟩, hs₃, rfl, -⟩, -,
      rfl, -⟩, -, rfl, -⟩ := hfits
    obtain ⟨v, rfl⟩ := hliteral hs₁
    obtain ⟨rfl, -⟩ := fits_text hs₃
    -- the only literal is followed by a parenthesis, so no sum goes on behind it
    have hend := (eq_of_quotes hc (u := u) (v := v) (w := s₂ ++ ("+".toList ++ (s₄ ++ (s₅ ++ rest))))
      (by rw [hsplit]; simp)).2
    have hmem : '+' ∈ [')'] := by
      rw [← hend, hplus]
      simp
    exact absurd hmem (by decide)
  · rw [List.eq_nil_iff_forall_not_mem]
    intro m hm
    obtain ⟨u, s, rest, g, hsplit, -, hfits, -, -⟩ := (exists_of_mem_findAllFrom hm).exists_fits
    obtain ⟨_, _, s₅, _, ⟨_, _, s₄, _, ⟨_, _, s₃, _, ⟨s₁, _, s₂, _, -, -, rfl, -⟩, hs₃, rfl, -⟩, -, rfl, -⟩,
      ⟨_, hs₅, -⟩, rfl, -⟩ := hfits
    obtain ⟨v, rfl⟩ := hliteral hs₅
    obtain ⟨rfl, -⟩ := fits_text hs₃
    -- nor does one stand before it
    have hfront := (eq_of_quotes hc (u := u ++ (s₁ ++ (s₂ ++ ("+".toList ++ s₄)))) (v := v) (w := rest)
      (by rw [hsplit]; simp)).1
    have hmem : '+' ∈ "fmt.Println(".toList := by
      rw [← hfront, hplus]
      simp
    exact absurd hmem (by decide)

/-! ## Inert content -/

/-- Content of a literal that looks like none of what the passes search for: it holds no end of a call, in the
literal no trap is found, and every declaration that is found there is left alone. -/
structure Inert (c : Text) : Prop where
  callEnd : ¬ ");".toList <:+: c
  traps : ∀ p ∈ literalTraps, p.findAll (quoted c) = []
  declarations : ∀ m ∈ declarationPattern.findAll (quoted c), LeftAlone m

theorem Rule.idle_of_findAll_eq_nil {r : Rule} {t : Text} (h : r.pattern.findAll t = []) : r.pass.Idle t := by
  intro m hm
  rw [show r.pass.pattern.findAll t = [] from h] at hm
  exact absurd hm List.not_mem_nil

theorem findAll_eq_nil_of_has {p : Pattern} {x t : Text} (hp : p.Has x) (h : ¬ x <:+: t) :
    p.findAll t = [] := by
  rw [List.eq_nil_iff_forall_not_mem]
  intro m hm
  obtain ⟨u, s, rest, g, rfl, -, hfits, -, -⟩ := (exists_of_mem_findAllFrom hm).exists_fits
  have hpart : s <:+: u ++ (s ++ rest) := ⟨u, rest, List.append_assoc _ _ _⟩
  exact h ((hp s g hfits).trans hpart)

theorem not_callEnd_goPrint {c : Text} (h : ¬ ");".toList <:+: c) : ¬ ");".toList <:+: goPrint c := by
  intro hmem
  rw [goPrint_eq] at hmem
  rcases infix_or_infix_of_not_mem (by decide) hmem with hcall | hrest
  · exact absurd hcall (by decide)
  · exact h ((infix_or_infix_of_not_mem (by decide) hrest).resolve_right (by decide))

/-- Content is inert if the call ends behind it and no later pass finds anything to do. -/
theorem inert_iff {c : Text} (hc : IsContent c) :
    Inert c ↔ ¬ ");".toList <:+: c ∧ ∀ p ∈ laterPasses, p.Idle (goPrint c) := by
  have hquote : '"' ∉ c := hc.not_mem (by decide)
  -- what a trap finds in the printed line it finds in the literal, as its matches do not leave it
  have htraps : ∀ p ∈ literalTraps, p.findAll (goPrint c) = [] ↔ p.findAll (quoted c) = [] :=
    fun p hp => (keepsToLiteral_of_mem p hp).findAll_eq_nil_iff hquote
  have hdeclarations : declarationPass.Idle (goPrint c) ↔
      ∀ m ∈ declarationPattern.findAll (quoted c), LeftAlone m :=
    idle_declarationPass_iff.trans (keepsToLiteral_declarationPattern.forall_findAll_iff leftAlone_congr hquote)
  have hidle : ∀ r ∈ bodyRules, r.pass.Idle (goPrint c) ↔ r.pattern.findAll (goPrint c) = [] := fun r hr =>
    ⟨(lightens_of_mem r (List.mem_cons_of_mem _ hr)).findAll_eq_nil, Rule.idle_of_findAll_eq_nil⟩
  have hcontrol : ∀ r ∈ returnRule :: controlRules,
      r.pass.Idle (goPrint c) ↔ r.pattern.findAll (quoted c) = [] := by
    intro r hr
    rw [hidle r (by simp only [bodyRules, List.mem_append, List.mem_cons] at hr ⊢; tauto)]
    exact htraps _ (List.mem_cons_of_mem _ (List.mem_map_of_mem hr))
  have hnew : newObjectRule.pass.Idle (goPrint c) ↔ newHead.findAll (quoted c) = [] := by
    rw [hidle _ (by simp [bodyRules, constructionRules]), findAll_newObjectRule_eq_nil_iff hc]
    exact htraps _ List.mem_cons_self
  rw [List.forall_mem_cons] at hcontrol
  simp only [laterPasses, statementPasses, constructionRules, List.forall_mem_append, List.forall_mem_cons,
    List.forall_mem_map, hdeclarations, hcontrol.1, hnew]
  constructor
  · rintro ⟨hend, htrap, hdeclaration⟩
    -- the rules that are no traps are those that need an end of a call, and those that need two literals
    have hhas : ∀ {r : Rule}, r.pattern.Has ");" → r.pass.Idle (goPrint c) := fun hr =>
      Rule.idle_of_findAll_eq_nil (findAll_eq_nil_of_has hr (not_callEnd_goPrint hend))
    rw [literalTraps, List.forall_mem_cons, List.map_cons, List.forall_mem_cons] at htrap
    refine ⟨hend, ⟨?_, ?_⟩, hdeclaration, ?_, hhas (Has.text List.infix_rfl).right, htrap.2.1,
      hhas (Has.text List.infix_rfl).right, htrap.1, by simp⟩
    · simp only [printRules, List.tail_cons, List.forall_mem_cons]
      exact ⟨hhas (Has.text List.infix_rfl).right, hhas (Has.text List.infix_rfl).right, by simp⟩
    · exact fun r hr => Rule.idle_of_findAll_eq_nil (findAll_concatRules_eq_nil hquote r hr)
    · exact fun r hr => (hcontrol.2 r hr).mpr (htrap.2.2 _ (List.mem_map_of_mem hr))
  · rintro ⟨hend, -, hdeclaration, hrules, -, hreturn, -, hobject, -⟩
    refine ⟨hend, ?_, hdeclaration⟩
    rw [literalTraps, List.forall_mem_cons, List.map_cons, List.forall_mem_cons, List.forall_mem_map]
    exact ⟨hobject, hreturn, fun r hr => (hcontrol.2 r hr).mp (hrules r hr)⟩

/-- **A literal comes through printing exactly if its content is inert.** -/
theorem recast_javaPrint_eq_goPrint_iff_inert {c : Text} (hc : IsContent c) :
    ({} : Recaster).recast (javaPrint c) = goPrint c ↔ Inert c :=
  (recast_javaPrint_eq_iff hc).trans (inert_iff hc).symm

/-- Content with pieces of code, one of them a declaration that is left alone. -/
def codePieces : Text := "if (x) done; new (y) z = 1; do it; return x = 2"

theorem recast_javaPrint_codePieces : IsContent codePieces ∧ Inert codePieces ∧
    ({} : Recaster).recast (javaPrint codePieces) = goPrint codePieces := by
  have hcontent : IsContent codePieces := by decide +kernel
  have hinert : Inert codePieces := ⟨by decide +kernel, by decide +kernel, by decide +kernel⟩
  exact ⟨hcontent, hinert, (recast_javaPrint_eq_goPrint_iff_inert hcontent).mpr hinert⟩

/-- Content that names a new object. -/
def namesObject : Text := "Use new Foo() here"

theorem recast_javaPrint_namesObject_ne : IsContent namesObject ∧
    ({} : Recaster).recast (javaPrint namesObject) = "fmt.Println(\"Use Foo\x7b\x7d here\")".toList ∧
    ({} : Recaster).recast (javaPrint namesObject) ≠ goPrint namesObject := by
  decide +kernel

end GoDraft
