import GoDraft.Proofs.Pattern.Skips

/-!
# GoDraft — what a search finds

A search does not stop at every place where its pattern matches: a match takes the places inside it
away. So what is found is a match at some place, and a match is found unless one before it reaches over
its start.

* `Pattern.exists_of_mem_findAllFrom` — what is found is a match at a place of the text;
* `Pattern.find?_findAllFrom` — the first match that passes a test, where no match before it reaches
  over its start;
* `Pattern.findFrom?_eq_some_iff` — the first match is the one at the first place that has any;
* `Pattern.replaceFrom_induct_behind` — replacing along a text, with the matches that are found;
* `Pattern.replaceAll_rel`, `Pattern.replaceAll_measure` — a relation between texts and what replaces them,
  or a measure of both, goes from the matches that are found to the whole text.
-/

namespace GoDraft.Pattern

variable {p : Pattern} {m : Match}

theorem findAllFrom_skip (b : Option Char) (offset n : Nat) (c : Char) (rest : Text) :
    p.findAllFrom b offset (n + 1) (c :: rest) =
      p.findAllFrom (some c) (offset + c.utf8Size) n rest := by
  simp only [findAllFrom]

theorem findAllFrom_zero {b : Option Char} {offset : Nat} {c : Char} {rest : Text}
    (h : p.matchAt? ⟨b, offset, c :: rest⟩ = some m) (hm : m.span.length = 0) :
    p.findAllFrom b offset 0 (c :: rest) = p.findAllFrom (some c) (offset + c.utf8Size) 0 rest := by
  simp only [findAllFrom, h, hm]

theorem findAllFrom_some {b : Option Char} {offset n : Nat} {c : Char} {rest : Text}
    (h : p.matchAt? ⟨b, offset, c :: rest⟩ = some m) (hm : m.span.length = n + 1) :
    p.findAllFrom b offset 0 (c :: rest) =
      m :: p.findAllFrom (some c) (offset + c.utf8Size) n rest := by
  simp only [findAllFrom, h, hm]

/-- A match stands at a place of a text that begins at an offset, behind the character `b`. -/
def StandsIn (p : Pattern) (b : Option Char) (offset : Nat) (t : Text) (m : Match) : Prop :=
  ∃ u post, t = u ++ post ∧ p.matchAt? ⟨lastOf b u, offset + u.size, post⟩ = some m ∧ 0 < m.span.length

theorem StandsIn.cons {b : Option Char} {offset : Nat} {c : Char} {rest : Text}
    (h : p.StandsIn (some c) (offset + c.utf8Size) rest m) : p.StandsIn b offset (c :: rest) m := by
  obtain ⟨u, post, rfl, hmatch, hlength⟩ := h
  refine ⟨c :: u, post, rfl, ?_, hlength⟩
  rw [lastOf_cons, Text.size_cons, ← Nat.add_assoc]
  exact hmatch

/-- What is found is a match at a place of the text. -/
theorem exists_of_mem_findAllFrom : ∀ {t : Text} {b : Option Char} {offset skip : Nat},
    m ∈ p.findAllFrom b offset skip t → p.StandsIn b offset t m
  | [], _, _, _, h => absurd h List.not_mem_nil
  | c :: rest, b, offset, n + 1, h => by
    rw [findAllFrom_skip] at h
    exact (exists_of_mem_findAllFrom h).cons
  | c :: rest, b, offset, 0, h => by
    cases hmatch : p.matchAt? ⟨b, offset, c :: rest⟩ with
    | none =>
      rw [findAllFrom_none hmatch] at h
      exact (exists_of_mem_findAllFrom h).cons
    | some m' =>
      cases hlength : m'.span.length with
      | zero =>
        rw [findAllFrom_zero hmatch hlength] at h
        exact (exists_of_mem_findAllFrom h).cons
      | succ n =>
        rw [findAllFrom_some hmatch hlength, List.mem_cons] at h
        rcases h with rfl | h
        · exact ⟨[], c :: rest, rfl, by rw [lastOf_nil]; exact hmatch, by omega⟩
        · exact (exists_of_mem_findAllFrom h).cons

/-- The first match that passes a test is found, where every match before it fails the test and ends
before it. -/
theorem find?_findAllFrom {ok : Match → Bool} {post : Text} (hok : ok m = true)
    (hm : 0 < m.span.length) : ∀ {u : Text} {b : Option Char} {offset skip : Nat}, skip ≤ u.length →
    p.matchAt? ⟨lastOf b u, offset + u.size, post⟩ = some m →
    (∀ (u₁ u₂ : Text) (m' : Match), u = u₁ ++ u₂ → u₂ ≠ [] →
      p.matchAt? ⟨lastOf b u₁, offset + u₁.size, u₂ ++ post⟩ = some m' →
        ok m' = false ∧ m'.span.length ≤ u₂.length) →
    (p.findAllFrom b offset skip (u ++ post)).find? ok = some m
  | [], b, offset, skip, hskip, hmatch, _ => by
    obtain rfl : skip = 0 := Nat.le_zero.mp hskip
    rw [lastOf_nil, Text.size_nil, Nat.add_zero] at hmatch
    obtain ⟨n, hlength⟩ : ∃ n, m.span.length = n + 1 := Nat.exists_eq_succ_of_ne_zero (by omega)
    cases post with
    | nil =>
      -- a match of some text does not stand at the end
      obtain ⟨hstart, -, -⟩ := fits_of_matchAt? hmatch
      rw [Span.length, hstart] at hm
      exact absurd hm (by simp)
    | cons c rest => rw [List.nil_append, findAllFrom_some hmatch hlength, List.find?_cons_of_pos hok]
  | c :: u, b, offset, skip, hskip, hmatch, hbefore => by
    rw [lastOf_cons, Text.size_cons, ← Nat.add_assoc] at hmatch
    have hrest : ∀ (u₁ u₂ : Text) (m' : Match), u = u₁ ++ u₂ → u₂ ≠ [] →
        p.matchAt? ⟨lastOf (some c) u₁, offset + c.utf8Size + u₁.size, u₂ ++ post⟩ = some m' →
          ok m' = false ∧ m'.span.length ≤ u₂.length := by
      intro u₁ u₂ m' hu hne hm'
      apply hbefore (c :: u₁) u₂ m' (by rw [hu, List.cons_append]) hne
      rw [lastOf_cons, Text.size_cons, ← Nat.add_assoc]
      exact hm'
    have ih {skip : Nat} (hskip : skip ≤ u.length) := find?_findAllFrom hok hm hskip hmatch hrest
    rw [List.cons_append]
    cases skip with
    | succ n =>
      rw [findAllFrom_skip]
      exact ih (Nat.le_of_succ_le_succ hskip)
    | zero =>
      cases hfirst : p.matchAt? ⟨b, offset, c :: (u ++ post)⟩ with
      | none =>
        rw [findAllFrom_none hfirst]
        exact ih (Nat.zero_le _)
      | some m' =>
        obtain ⟨hfail, hends⟩ := hbefore [] (c :: u) m' rfl (List.cons_ne_nil c u)
          (by rw [lastOf_nil]; exact hfirst)
        cases hlength : m'.span.length with
        | zero =>
          rw [findAllFrom_zero hfirst hlength]
          exact ih (Nat.zero_le _)
        | succ n =>
          rw [findAllFrom_some hfirst hlength, List.find?_cons_of_neg (by simp [hfail])]
          rw [hlength, List.length_cons] at hends
          exact ih (Nat.le_of_succ_le_succ hends)

/-! ## The first match -/

/-- A pattern matches behind a front part of a text that begins at an offset, behind the character `b`. -/
def MatchesBehind (p : Pattern) (b : Option Char) (offset : Nat) (t pre : Text) (m : Match) : Prop :=
  ∃ post, t = pre ++ post ∧ p.matchAt? ⟨lastOf b pre, offset + pre.size, post⟩ = some m

theorem matchesBehind_nil {b : Option Char} {offset : Nat} {t : Text} :
    p.MatchesBehind b offset t [] m ↔ p.matchAt? ⟨b, offset, t⟩ = some m := by
  constructor
  · rintro ⟨post, rfl, h⟩
    exact h
  · exact fun h => ⟨t, rfl, h⟩

theorem matchesBehind_cons {b : Option Char} {offset : Nat} {c : Char} {t pre : Text} :
    p.MatchesBehind b offset (c :: t) (c :: pre) m ↔
      p.MatchesBehind (some c) (offset + c.utf8Size) t pre m := by
  unfold MatchesBehind
  rw [lastOf_cons, Text.size_cons, ← Nat.add_assoc]
  simp only [List.cons_append, List.cons.injEq, true_and]

/-- Where nothing matches at the start, every place with a match is behind the first character. -/
theorem MatchesBehind.exists_cons {b : Option Char} {offset : Nat} {c : Char} {t pre : Text}
    (hnone : p.matchAt? ⟨b, offset, c :: t⟩ = none) (h : p.MatchesBehind b offset (c :: t) pre m) :
    ∃ pre', pre = c :: pre' ∧ p.MatchesBehind (some c) (offset + c.utf8Size) t pre' m := by
  cases pre with
  | nil =>
    rw [matchesBehind_nil, hnone] at h
    cases h
  | cons d pre' =>
    obtain rfl : d = c := by
      obtain ⟨post, heq, -⟩ := h
      exact (List.cons.inj heq).1.symm
    exact ⟨pre', rfl, matchesBehind_cons.mp h⟩

/-- The first match is the one at the first place that has any. -/
theorem findFrom?_eq_some_iff : ∀ {t : Text} {b : Option Char} {offset : Nat},
    p.findFrom? b offset t = some m ↔ ∃ pre, p.MatchesBehind b offset t pre m ∧
      ∀ pre' m', p.MatchesBehind b offset t pre' m' → pre.length ≤ pre'.length
  | [], b, offset => by
    rw [findFrom?]
    constructor
    · exact fun h => ⟨[], matchesBehind_nil.mpr h, fun _ _ _ => Nat.zero_le _⟩
    · rintro ⟨pre, ⟨post, hnil, h⟩, -⟩
      obtain ⟨rfl, rfl⟩ := List.nil_eq_append_iff.mp hnil
      exact h
  | c :: t, b, offset => by
    rw [findFrom?]
    cases hhere : p.matchAt? ⟨b, offset, c :: t⟩ with
    | some m₀ =>
      have hfirst := matchesBehind_nil.mpr hhere
      constructor
      · intro h
        obtain rfl := Option.some.inj h
        exact ⟨[], hfirst, fun _ _ _ => Nat.zero_le _⟩
      · rintro ⟨pre, hpre, hleast⟩
        obtain rfl := List.length_eq_zero_iff.mp (Nat.le_zero.mp (hleast [] m₀ hfirst))
        rw [matchesBehind_nil, hhere] at hpre
        exact hpre
    | none =>
      -- nothing matches here, so all that match do so one character further
      show p.findFrom? (some c) (offset + c.utf8Size) t = some m ↔ _
      rw [findFrom?_eq_some_iff]
      constructor
      · rintro ⟨pre, hpre, hleast⟩
        refine ⟨c :: pre, matchesBehind_cons.mpr hpre, fun pre' m' h' => ?_⟩
        obtain ⟨pre'', rfl, h''⟩ := h'.exists_cons hhere
        exact Nat.succ_le_succ (hleast pre'' m' h'')
      · rintro ⟨_, hmatch, hleast⟩
        obtain ⟨pre, rfl, hpre⟩ := hmatch.exists_cons hhere
        refine ⟨pre, hpre, fun pre' m' h' => ?_⟩
        exact Nat.le_of_succ_le_succ (hleast (c :: pre') m' (matchesBehind_cons.mpr h'))

/-- Nothing is found where no place has a match. -/
theorem findFrom?_eq_none_iff : ∀ {t : Text} {b : Option Char} {offset : Nat},
    p.findFrom? b offset t = none ↔ ∀ pre m, ¬ p.MatchesBehind b offset t pre m
  | [], b, offset => by
    rw [findFrom?]
    constructor
    · rintro h pre m ⟨post, hnil, hm⟩
      obtain ⟨rfl, rfl⟩ := List.nil_eq_append_iff.mp hnil
      exact absurd (h.symm.trans hm) (by simp)
    · intro h
      rw [Option.eq_none_iff_forall_ne_some]
      exact fun m hm => h [] m (matchesBehind_nil.mpr hm)
  | c :: t, b, offset => by
    rw [findFrom?]
    cases hhere : p.matchAt? ⟨b, offset, c :: t⟩ with
    | some m₀ =>
      have hfirst := matchesBehind_nil.mpr hhere
      constructor
      · exact fun h => absurd h (Option.some_ne_none m₀)
      · exact fun h => absurd hfirst (h [] m₀)
    | none =>
      show p.findFrom? (some c) (offset + c.utf8Size) t = none ↔ _
      rw [findFrom?_eq_none_iff]
      constructor
      · intro h pre m hmatch
        obtain ⟨pre', -, hpre⟩ := hmatch.exists_cons hhere
        exact h pre' m hpre
      · exact fun h pre m hpre => h (c :: pre) m (matchesBehind_cons.mpr hpre)

theorem views_eq_nil_of_skips {t tail : Text} {b : Option Char} (h : p.Skips b t tail) (ht : t ≠ []) :
    p.views ⟨b, t ++ tail, []⟩ = [] := by
  obtain ⟨c, t, rfl⟩ := List.exists_cons_of_ne_nil ht
  exact h.1

/-- A pattern that reads no empty text and is not found has no view anywhere. -/
theorem skips_of_findAllFrom_eq_nil (hp : ∀ s g, p.Fits s g → s ≠ []) :
    ∀ {t : Text} {b : Option Char} {offset : Nat}, p.findAllFrom b offset 0 t = [] → p.Skips b t []
  | [], _, _, _ => trivial
  | c :: t, b, offset, h => by
    cases hm : p.matchAt? ⟨b, offset, c :: t⟩ with
    | none =>
      rw [findAllFrom_none hm] at h
      have hviews : p.views ⟨b, c :: t, []⟩ = [] := matchAt?_eq_none_iff.mp hm
      refine ⟨?_, skips_of_findAllFrom_eq_nil hp h⟩
      rwa [List.append_nil]
    | some m =>
      obtain ⟨-, -, g, hfits, -⟩ := fits_of_matchAt? hm
      cases hn : m.span.length with
      | zero =>
        have htext : m.span.text = [] := by rw [Span.text, hn, List.take_zero]
        exact absurd htext (hp _ g hfits)
      | succ n =>
        rw [findAllFrom_some hm hn] at h
        cases h

theorem findAll_eq_nil_iff_skips (hp : ∀ s g, p.Fits s g → s ≠ []) {t : Text} :
    p.findAll t = [] ↔ p.Skips none t [] := by
  constructor
  · exact skips_of_findAllFrom_eq_nil hp
  · intro h
    have hall := findAllFrom_skips h 0
    rwa [List.append_nil] at hall

/-! ## Replacing what is found -/

section Replacing

variable {R : Text → Text → Prop} {f : Match → Text}

/-- Replacing goes along the text: characters outside the matches are copied, and the matches that are found
are replaced one after another. What holds of the empty text and is kept by both holds of the matches, the
text and the text after replacing, behind whatever character stands before them. -/
theorem replaceFrom_induct_behind {P : Option Char → List Match → Text → Text → Prop} (hnil : ∀ b, P b [] [] [])
    (hchar : ∀ b c {ms s s'}, P (some c) ms s s' → P b ms (c :: s) (c :: s'))
    (hmatch : ∀ b offset m {ms s s'}, p.matchAt? ⟨b, offset, m.span.text ++ s⟩ = some m →
      P (lastOf b m.span.text) ms s s' → P b (m :: ms) (m.span.text ++ s) (f m ++ s')) :
    ∀ (t : Text) (b : Option Char) (offset skip : Nat),
      P (lastOf b (t.take skip)) (p.findAllFrom b offset skip t) (t.drop skip) (p.replaceFrom f b offset skip t)
  | [], b, offset, skip => by
    rw [findAllFrom, replaceFrom, List.drop_nil]
    exact hnil _
  | c :: rest, b, offset, n + 1 => by
    rw [findAllFrom_skip, replaceFrom_skip, List.drop_succ_cons, List.take_succ_cons, lastOf_cons]
    exact replaceFrom_induct_behind hnil hchar hmatch rest _ _ n
  | c :: rest, b, offset, 0 => by
    have ih := replaceFrom_induct_behind hnil hchar hmatch rest (some c) (offset + c.utf8Size)
    have ih₀ := ih 0
    rw [List.take_zero, lastOf_nil, List.drop_zero] at ih₀
    rw [List.drop_zero, List.take_zero, lastOf_nil]
    cases hm : p.matchAt? ⟨b, offset, c :: rest⟩ with
    | none =>
      rw [findAllFrom_none hm, replaceFrom_none hm]
      exact hchar b c ih₀
    | some m =>
      cases hn : m.span.length with
      | zero =>
        rw [findAllFrom_zero hm hn, replaceFrom_zero hm hn]
        exact hchar b c ih₀
      | succ n =>
        obtain ⟨hstart, -, -⟩ := fits_of_matchAt? hm
        -- the match takes this character and the next ones, which are skipped then
        have htext : m.span.text = c :: rest.take n := by
          rw [Span.text, hn, hstart]
          rfl
        have hsplit : c :: rest = m.span.text ++ rest.drop n := by
          rw [htext, List.cons_append, List.take_append_drop]
        have hlast : lastOf (some c) (rest.take n) = lastOf b m.span.text := by rw [htext, lastOf_cons]
        rw [findAllFrom_some hm hn, replaceFrom_some hm hn, hsplit]
        rw [hsplit] at hm
        exact hmatch b offset m hm (hlast ▸ ih n)

/-- The same where the character before does not matter. -/
theorem replaceFrom_induct {P : List Match → Text → Text → Prop} (hnil : P [] [] [])
    (hchar : ∀ c {ms s s'}, P ms s s' → P ms (c :: s) (c :: s'))
    (hmatch : ∀ m {ms s s'}, P ms s s' → P (m :: ms) (m.span.text ++ s) (f m ++ s'))
    (t : Text) (b : Option Char) (offset skip : Nat) :
    P (p.findAllFrom b offset skip t) (t.drop skip) (p.replaceFrom f b offset skip t) :=
  replaceFrom_induct_behind (p := p) (f := f) (P := fun _ => P) (fun _ => hnil) (fun _ c _ _ _ => hchar c)
    (fun _ _ m _ _ _ _ => hmatch m) t b offset skip

/-- A relation that holds between every match that is found and what replaces it, and between a character
and itself, holds between a text and the text after replacing. -/
theorem replaceAll_rel (hnil : R [] []) (hchar : ∀ c, R [c] [c])
    (happend : ∀ {s s' t t'}, R s s' → R t t' → R (s ++ t) (s' ++ t')) {t : Text}
    (h : ∀ m ∈ p.findAll t, R m.span.text (f m)) : R t (p.replaceAll f t) := by
  refine replaceFrom_induct (p := p) (f := f)
    (P := fun ms s s' => (∀ m ∈ ms, R m.span.text (f m)) → R s s') ?_ ?_ ?_ t none 0 0 h
  · exact fun _ => hnil
  · exact fun c _ _ _ ih hms => happend (hchar c) (ih hms)
  · intro m ms s s' ih hms
    rw [List.forall_mem_cons] at hms
    exact happend hms.1 (ih hms.2)

/-- What is found is a match at some place. -/
theorem exists_matchAt?_of_mem_findAll {t : Text} (h : m ∈ p.findAll t) : ∃ k, p.matchAt? k = some m := by
  obtain ⟨u, post, -, hm, -⟩ := exists_of_mem_findAllFrom h
  exact ⟨_, hm⟩

/-- A measure of texts that no replacement of a match changes is kept by replacing all matches. -/
theorem replaceAll_measure {μ : Text → Int} (hμ : ∀ s t, μ (s ++ t) = μ s + μ t)
    (hf : ∀ k m, p.matchAt? k = some m → μ (f m) = μ m.span.text) (t : Text) : μ (p.replaceAll f t) = μ t := by
  refine replaceAll_rel (R := fun s s' => μ s' = μ s) rfl (fun _ => rfl) ?_ ?_
  · intro s s' t t' hs ht
    rw [hμ, hμ, hs, ht]
  · intro m hm
    obtain ⟨k, hmatch⟩ := exists_matchAt?_of_mem_findAll hm
    exact hf k m hmatch

end Replacing

end GoDraft.Pattern
