import GoDraft.Proofs.Body.Balance
import GoDraft.Proofs.Body.Passes
import GoDraft.Proofs.Body.Traces
import GoDraft.Proofs.Pattern.Found

/-!
# GoDraft — passes only ever lighten a text

Every pass for a body takes away characters that no later pass brings back: a semicolon, an opening
parenthesis, or the first letter of `do`. Where a pass writes an opening parenthesis it writes double quotes
with it, and a declaration gets a colon. With such characters weighed, each match that is replaced by another
text makes the text lighter, and dropping terminators makes no text heavier. So a body that is as heavy at the
end as in between has not been changed since then.

* `Text.load` — what a text weighs;
* `Rule.Lightens`, `Rule.Lightens.load_lt` — a rule that makes its matches lighter;
* `Pass.Wanes`, `wanes_of_mem_bodyPasses` — the passes for a body do, where they change anything;
* `Pass.Idle`, `Pass.idle_of_load_le_run` — passes that have not made a text lighter have left it alone;
* `load_stripTerminators_le` — no text gets heavier without its terminators.
-/

namespace GoDraft

/-! ## What a text weighs -/

namespace Text

/-- What a character weighs: more than nothing where passes take it away, less where they bring it. -/
def charLoad (c : Char) : Int :=
  if ";(d".toList.elem c then 1 else if ":\"".toList.elem c then -1 else 0

/-- What a text weighs. -/
def load (t : Text) : Int := (t.map charLoad).sum

@[simp] theorem load_nil : load [] = 0 := rfl

@[simp] theorem load_append (s t : Text) : load (s ++ t) = s.load + t.load := by
  rw [load, List.map_append, List.sum_append]
  rfl

theorem load_singleton (c : Char) : load [c] = charLoad c := by
  simp [load]

theorem load_cons (c : Char) (t : Text) : load (c :: t) = load [c] + t.load := load_append [c] t

@[simp] theorem load_reverse (t : Text) : load t.reverse = t.load := by
  rw [load, List.map_reverse, List.sum_reverse]
  rfl

theorem charLoad_nonneg {c : Char} (hc : c ∉ ":\"".toList) : 0 ≤ charLoad c := by
  have helem : ":\"".toList.elem c = false := by simpa using hc
  rw [charLoad, helem]
  split <;> simp

theorem load_nonneg {t : Text} (h : ∀ c ∈ ":\"".toList, c ∉ t) : 0 ≤ t.load := by
  apply List.sum_nonneg
  intro x hx
  obtain ⟨c, hc, rfl⟩ := List.mem_map.mp hx
  exact charLoad_nonneg fun hmem => h c hmem hc

theorem charLoad_of_isBlank {c : Char} (hc : GoDraft.isBlank c = true) : charLoad c = 0 := by
  have hne : ∀ d ∈ ";(d:\"".toList, c ≠ d := by
    rintro d hd rfl
    have hall : (";(d:\"".toList.all fun d => !GoDraft.isBlank d) = true := by decide
    have hblank := List.all_eq_true.mp hall c hd
    rw [hc] at hblank
    exact absurd hblank (by decide)
  have hone : ";(d".toList.elem c = false := by
    rw [← Bool.not_eq_true, List.elem_iff]
    intro hmem
    exact hne c (List.mem_append_left ":\"".toList hmem) rfl
  have htwo : ":\"".toList.elem c = false := by
    rw [← Bool.not_eq_true, List.elem_iff]
    intro hmem
    exact hne c (List.mem_append_right ";(d".toList hmem) rfl
  rw [charLoad, hone, htwo]
  rfl

theorem load_dropWhile_isBlank (t : Text) : load (t.dropWhile GoDraft.isBlank) = t.load := by
  induction t with
  | nil => rfl
  | cons c t ih =>
    rw [List.dropWhile_cons]
    split
    · rename_i hc
      rw [ih, load_cons, load_singleton, charLoad_of_isBlank hc, Int.zero_add]
    · rfl

theorem load_trimEnd (t : Text) : t.trimEnd.load = t.load := by
  rw [trimEnd, load_reverse, load_dropWhile_isBlank, load_reverse]

end Text

open Text

/-- No text gets heavier without its terminators. -/
theorem load_stripTerminators_le (t : Text) : (stripTerminators t).load ≤ t.load := by
  have hsheds : Sheds fun s s' => s'.load ≤ s.load :=
    { refl := fun s => Int.le_refl s.load
      trans := fun hs ht => Int.le_trans ht hs
      append := fun hs ht => by
        rw [load_append, load_append]
        exact Int.add_le_add hs ht
      blank := fun hc => by rw [load_singleton, charLoad_of_isBlank hc, load_nil]
      semicolon := by decide
      newline := by decide }
  exact hsheds.stripTerminators t

/-! ## Rules -/

namespace Segment

/-- What the fixed texts among segments weigh. -/
def fixedLoad (segments : List Segment) : Int :=
  (segments.map fun
    | .text t => t.load
    | _ => 0).sum

/-- A reading weighs at least as much as the fixed texts and the groups, if nothing in the fillers weighs less
than nothing. -/
theorem Spells.load_le {segments : List Segment} {s : Text} {g : Notes} (h : Spells segments s g)
    (hfill : fillsFree ":\"" segments = true) (hnodup : (indices segments).Nodup) :
    fixedLoad segments + ((indices segments).map fun i => (g.text i).load).sum ≤ s.load := by
  induction h with
  | nil => decide
  | @text t segments s g _ ih =>
    have hcons : fixedLoad (.text t :: segments) = t.load + fixedLoad segments := rfl
    have hsame : indices (.text t :: segments) = indices segments := rfl
    have hrest := ih hfill hnodup
    rw [hcons, hsame, load_append]
    omega
  | @filler p u first segments s g _ ih =>
    obtain ⟨hfree, hrest⟩ : _ ∧ _ := Bool.and_eq_true_iff.mp hfill
    have hcons : fixedLoad (.filler p :: segments) = 0 + fixedLoad segments := rfl
    have hsame : indices (.filler p :: segments) = indices segments := rfl
    have hu : 0 ≤ u.load := load_nonneg (trace_eq_nil_iff.mp (Pattern.trace_eq_nil_of_isFreeOf hfree first))
    have hs := ih hrest hnodup
    rw [hcons, hsame, load_append]
    omega
  | @group i p u first segments s g rest ih =>
    have hcons : fixedLoad (.group i p :: segments) = 0 + fixedLoad segments := rfl
    have hindices : indices (.group i p :: segments) = i :: indices segments := rfl
    rw [hindices, List.nodup_cons] at hnodup
    -- the note of this group is the first one with its number, and hides no other
    have hnew : i ∉ g.map Prod.fst := by
      rw [rest.map_fst, List.mem_reverse]
      exact hnodup.1
    have hsame : (indices segments).map (fun j => (Notes.text (g ++ [(i, u)]) j).load) =
        (indices segments).map fun j => (g.text j).load := by
      apply List.map_congr_left
      intro j hj
      have hji : j ≠ i := by
        rintro rfl
        exact hnodup.1 hj
      rw [text_append_singleton hnew, if_neg hji]
    have hs := ih hfill hnodup.2
    rw [hcons, hindices, List.map_cons, List.sum_cons, hsame, text_append_singleton hnew, if_pos rfl,
      load_append]
    omega

end Segment

/-- What the fixed texts of a template weigh. -/
def Template.fixedLoad : Template → Int
  | [] => 0
  | .text t :: tmpl => t.load + fixedLoad tmpl
  | .group _ :: tmpl => fixedLoad tmpl

theorem Template.load_fill {m : Match} : ∀ tmpl : Template,
    (tmpl.fill m).load = tmpl.fixedLoad + (tmpl.uses.map fun i => (m.group i).load).sum
  | [] => by simp [fill, fixedLoad, uses]
  | .text t :: tmpl => by
    have hfill : fill (.text t :: tmpl) m = t ++ fill tmpl m := rfl
    rw [hfill, load_append, load_fill tmpl, fixedLoad, uses, Int.add_assoc]
  | .group i :: tmpl => by
    have hfill : fill (.group i :: tmpl) m = m.group i ++ fill tmpl m := rfl
    rw [hfill, load_append, load_fill tmpl, fixedLoad, uses, List.map_cons, List.sum_cons]
    omega

namespace Rule

/-- What a rule writes is lighter than its match: its fixed texts are, each group of the match is used once or
dropped, and no group that is dropped weighs less than nothing. -/
def Lightens (r : Rule) : Prop :=
  ∃ dropped segments, r.pattern.SpelledBy segments ∧ Segment.fillsFree ":\"" segments = true ∧
    (Segment.indices segments).Nodup ∧ 0 ∉ r.template.uses ∧
    (Segment.indices segments).Perm (r.template.uses ++ dropped) ∧
    (∀ i ∈ dropped, i ∈ Segment.freeGroups ":\"" segments) ∧
    r.template.fixedLoad < Segment.fixedLoad segments

theorem Lightens.load_lt {r : Rule} (hr : r.Lightens) {k : Cursor} {m : Match}
    (hm : r.pattern.matchAt? k = some m) : (r.template.fill m).load < m.span.text.load := by
  obtain ⟨dropped, segments, hspelled, hfill, hnodup, hzero, hperm, hdropped, hlt⟩ := hr
  obtain ⟨-, -, g, hfits, hgroup⟩ := Pattern.fits_of_matchAt? hm
  have hspells := hspelled _ g hfits
  have htext := hspells.load_le hfill hnodup
  have hsum : ((Segment.indices segments).map fun i => (g.text i).load).sum =
      (r.template.uses.map fun i => (g.text i).load).sum + (dropped.map fun i => (g.text i).load).sum := by
    rw [(hperm.map _).sum_eq, List.map_append, List.sum_append]
  have hused : (r.template.uses.map fun i => (m.group i).load) =
      r.template.uses.map fun i => (g.text i).load := by
    apply List.map_congr_left
    intro i hi
    obtain ⟨j, rfl⟩ := Nat.exists_eq_succ_of_ne_zero fun h : i = 0 => hzero (h ▸ hi)
    rw [hgroup]
  have hrest : 0 ≤ (dropped.map fun i => (g.text i).load).sum := by
    apply List.sum_nonneg
    intro x hx
    obtain ⟨i, hi, rfl⟩ := List.mem_map.mp hx
    exact load_nonneg (trace_eq_nil_iff.mp (hspells.trace_eq_nil hnodup i (hdropped i hi)))
  rw [Template.load_fill, hused]
  omega

end Rule

/-- The rules for a body. -/
def bodyRules : List Rule :=
  printRules ++ concatRules ++ (controlRules ++ callRule :: returnRule :: constructionRules)

set_option maxRecDepth 4000 in
theorem lightens_of_mem : ∀ r ∈ declarationRule :: bodyRules, r.Lightens := by
  simp only [declarationRule, declarationPattern, bodyRules, printRules, printRule, concatRules, controlRules,
    ifRule, whileRule, forRule, doRule, untilRule, callRule, returnRule, constructionRules, declaredObjectRule,
    newObjectRule, List.cons_append, List.nil_append, List.forall_mem_cons]
  -- the types of declarations are dropped, and nothing else
  refine ⟨⟨[3], ?_⟩, ⟨[], ?_⟩, ⟨[], ?_⟩, ⟨[], ?_⟩, ⟨[], ?_⟩, ⟨[], ?_⟩, ⟨[], ?_⟩, ⟨[], ?_⟩, ⟨[1], ?_⟩, ⟨[], ?_⟩,
    ⟨[], ?_⟩, ⟨[], ?_⟩, ⟨[], ?_⟩, ⟨[1], ?_⟩, ⟨[], ?_⟩, by simp⟩
  all_goals
    exact ⟨_, by
      repeat' first
        | exact .text _
        | exact .group rfl
        | apply Pattern.SpelledBy.seq
        | exact .filler rfl,
      by decide, by decide, by decide, by decide, by decide, by decide⟩

/-! ## Passes -/

/-- A text measures what is left of it after replacing and what the replacements take away. -/
theorem Pattern.replaceFrom_sum {p : Pattern} {f : Match → Text} {μ : Text → Int}
    (hμ : ∀ s t, μ (s ++ t) = μ s + μ t) (t : Text) (b : Option Char) (offset skip : Nat) :
    μ (t.drop skip) = μ (p.replaceFrom f b offset skip t) +
      ((p.findAllFrom b offset skip t).map fun m => μ m.span.text - μ (f m)).sum := by
  refine Pattern.replaceFrom_induct (p := p) (f := f)
    (P := fun ms s s' => μ s = μ s' + (ms.map fun m => μ m.span.text - μ (f m)).sum) ?_ ?_ ?_ t b offset skip
  · simp
  · intro c ms s s' ih
    have hcons (u : Text) : μ (c :: u) = μ [c] + μ u := hμ [c] u
    rw [hcons s', hcons s, ih, Int.add_assoc]
  · intro m ms s s' ih
    rw [hμ, hμ, ih, List.map_cons, List.sum_cons]
    omega

namespace Pass

/-- What a pass writes for a match is the match itself or lighter. -/
def Wanes (p : Pass) : Prop :=
  ∀ (k : Cursor) (m : Match), p.pattern.matchAt? k = some m →
    p.write m = m.span.text ∨ (p.write m).load < m.span.text.load

/-- A pass writes every match in a text as it stands. -/
def Idle (p : Pass) (t : Text) : Prop := ∀ m ∈ p.pattern.findAll t, p.write m = m.span.text

variable {p : Pass} {passes : List Pass} {t : Text}

theorem Idle.apply_eq (h : p.Idle t) : p.apply t = t :=
  (Pattern.replaceAll_rel (R := fun s s' => s' = s) rfl (fun _ => rfl) (fun hs ht => by rw [hs, ht]) h)

theorem run_eq_of_idle (h : ∀ p ∈ passes, p.Idle t) : run passes t = t := by
  induction passes with
  | nil => rfl
  | cons p passes ih =>
    rw [List.forall_mem_cons] at h
    rw [run_cons, h.1.apply_eq]
    exact ih h.2

/-- A text weighs what the pass leaves of it and what it takes away from the matches. -/
theorem load_eq_apply (p : Pass) (t : Text) : t.load = (p.apply t).load +
    ((p.pattern.findAll t).map fun m => m.span.text.load - (p.write m).load).sum :=
  Pattern.replaceFrom_sum load_append t none 0 0

theorem Wanes.taken_nonneg (hp : p.Wanes) :
    ∀ x ∈ (p.pattern.findAll t).map fun m => m.span.text.load - (p.write m).load, 0 ≤ x := by
  intro x hx
  obtain ⟨m, hm, rfl⟩ := List.mem_map.mp hx
  obtain ⟨k, hmatch⟩ := Pattern.exists_matchAt?_of_mem_findAll hm
  rcases hp k m hmatch with heq | hlt
  · rw [heq, Int.sub_self]
  · omega

theorem Wanes.load_apply_le (hp : p.Wanes) (t : Text) : (p.apply t).load ≤ t.load := by
  have hload := p.load_eq_apply t
  have htaken := List.sum_nonneg (hp.taken_nonneg (t := t))
  omega

/-- A pass that has not made a text lighter has left it alone. -/
theorem Wanes.idle_of_load_le (hp : p.Wanes) (h : t.load ≤ (p.apply t).load) : p.Idle t := by
  have hload := p.load_eq_apply t
  have htaken := List.sum_nonneg (hp.taken_nonneg (t := t))
  have hzero : ((p.pattern.findAll t).map fun m => m.span.text.load - (p.write m).load).sum = 0 := by omega
  intro m hm
  have hm' := List.all_zero_of_le_zero_le_of_sum_eq_zero hp.taken_nonneg hzero (List.mem_map_of_mem hm)
  obtain ⟨k, hmatch⟩ := Pattern.exists_matchAt?_of_mem_findAll hm
  rcases hp k m hmatch with heq | hlt
  · exact heq
  · omega

/-- From any place on, a pass makes a text lighter or leaves it as it is. -/
theorem Wanes.replaceFrom_lt_or_eq (hp : p.Wanes) (t : Text) (b : Option Char) (offset : Nat) :
    (p.pattern.replaceFrom p.write b offset 0 t).load < t.load ∨
      p.pattern.replaceFrom p.write b offset 0 t = t := by
  refine Pattern.replaceFrom_induct (p := p.pattern) (f := p.write)
    (P := fun ms s s' => (∀ m ∈ ms, ∃ k, p.pattern.matchAt? k = some m) → s'.load < s.load ∨ s' = s)
    ?_ ?_ ?_ t b offset 0 ?_
  · exact fun _ => .inr rfl
  · intro c ms s s' ih hms
    rcases ih hms with hlt | rfl
    · left
      rw [load_cons c s, load_cons c s']
      omega
    · exact .inr rfl
  · intro m ms s s' ih hms
    rw [List.forall_mem_cons] at hms
    obtain ⟨⟨k, hk⟩, hms⟩ := hms
    rw [load_append, load_append]
    -- lighter here, or lighter behind, or the same in both
    rcases hp k m hk, ih hms with ⟨heq | hlt, hlt' | rfl⟩
    · left
      rw [heq]
      omega
    · exact .inr (by rw [heq])
    · left
      omega
    · left
      omega
  · intro m hm
    obtain ⟨u, post, -, hmatch, -⟩ := Pattern.exists_of_mem_findAllFrom hm
    exact ⟨_, hmatch⟩

theorem load_run_le (h : ∀ p ∈ passes, p.Wanes) (t : Text) : (run passes t).load ≤ t.load := by
  induction passes generalizing t with
  | nil => exact Int.le_refl t.load
  | cons p passes ih =>
    rw [List.forall_mem_cons] at h
    rw [run_cons]
    exact Int.le_trans (ih h.2 (p.apply t)) (h.1.load_apply_le t)

/-- **Passes that have not made a text lighter have left it alone**, each of them. -/
theorem idle_of_load_le_run (h : ∀ p ∈ passes, p.Wanes) (hload : t.load ≤ (run passes t).load) :
    ∀ p ∈ passes, p.Idle t := by
  induction passes with
  | nil => exact fun p hp => absurd hp List.not_mem_nil
  | cons p passes ih =>
    rw [List.forall_mem_cons] at h
    rw [run_cons] at hload
    have hrest := load_run_le h.2 (p.apply t)
    have hidle : p.Idle t := h.1.idle_of_load_le (Int.le_trans hload hrest)
    rw [hidle.apply_eq] at hload
    rw [List.forall_mem_cons]
    exact ⟨hidle, ih h.2 hload⟩

end Pass

theorem Rule.Lightens.wanes {r : Rule} (hr : r.Lightens) : r.pass.Wanes :=
  fun _ _ hm => .inr (hr.load_lt hm)

/-- A rule that lightens its matches is idle only where it finds none. -/
theorem Rule.Lightens.findAll_eq_nil {r : Rule} (hr : r.Lightens) {t : Text} (h : r.pass.Idle t) :
    r.pattern.findAll t = [] := by
  rw [List.eq_nil_iff_forall_not_mem]
  intro m hm
  obtain ⟨k, hmatch⟩ := Pattern.exists_matchAt?_of_mem_findAll hm
  have hlt := hr.load_lt hmatch
  rw [show r.template.fill m = m.span.text from h m hm] at hlt
  omega

/-- Whether a match of a declaration is left to other rules. -/
def LeftAlone (m : Match) : Prop := m.group 3 ∈ nonTypeWords ∨ "new ".toList <+: m.group 5

instance (m : Match) : Decidable (LeftAlone m) :=
  inferInstanceAs (Decidable (m.group 3 ∈ nonTypeWords ∨ "new ".toList <+: m.group 5))

theorem recastDeclaration_of_leftAlone {m : Match} (h : LeftAlone m) : recastDeclaration m = m.span.text := by
  have hif : (nonTypeWords.elem (m.group 3) || (m.group 5).startsWith "new ") = true := by
    rw [Bool.or_eq_true, List.elem_iff, Text.startsWith, List.isPrefixOf_iff_prefix]
    exact h
  rw [recastDeclaration, if_pos hif]
  rfl

theorem load_recastDeclaration_lt {k : Cursor} {m : Match} (hm : declarationPattern.matchAt? k = some m)
    (h : ¬ LeftAlone m) : (recastDeclaration m).load < m.span.text.load := by
  have hif : ¬ (nonTypeWords.elem (m.group 3) || (m.group 5).startsWith "new ") = true := by
    rw [Bool.or_eq_true, List.elem_iff, Text.startsWith, List.isPrefixOf_iff_prefix]
    exact h
  have hlightens : declarationRule.Lightens := lightens_of_mem _ List.mem_cons_self
  have hlt := hlightens.load_lt hm
  have hfill : declarationRule.template.fill m =
      m.group 1 ++ (m.group 2 ++ (m.group 4 ++ (" := ".toList ++ (m.group 5 ++ [])))) := rfl
  rw [hfill] at hlt
  rw [recastDeclaration, if_neg hif]
  simp only [load_append, load_trimEnd, load_nil] at hlt ⊢
  omega

theorem wanes_declarationPass : declarationPass.Wanes := by
  intro k m hm
  by_cases h : LeftAlone m
  · exact .inl (recastDeclaration_of_leftAlone h)
  · exact .inr (load_recastDeclaration_lt hm h)

/-- The pass of declarations is idle where other rules get all it finds. -/
theorem idle_declarationPass_iff {t : Text} :
    declarationPass.Idle t ↔ ∀ m ∈ declarationPattern.findAll t, LeftAlone m := by
  constructor
  · intro h m hm
    by_contra hfires
    obtain ⟨k, hmatch⟩ := Pattern.exists_matchAt?_of_mem_findAll hm
    have hlt := load_recastDeclaration_lt hmatch hfires
    rw [show recastDeclaration m = m.span.text from h m hm] at hlt
    omega
  · exact fun h m hm => recastDeclaration_of_leftAlone (h m hm)

/-- **The passes for a body make a text lighter wherever they change it.** -/
theorem wanes_of_mem_bodyPasses : ∀ p ∈ bodyPasses false, p.Wanes := by
  have hrules : ∀ r ∈ bodyRules, r.pass.Wanes := fun r hr =>
    Rule.Lightens.wanes (lightens_of_mem r (List.mem_cons_of_mem _ hr))
  intro p hp
  simp only [bodyPasses, statementPasses, List.mem_append, List.mem_cons, List.mem_map] at hp
  rcases hp with ⟨r, hr, -⟩ | ⟨r, hr, rfl⟩ | rfl | ⟨r, hr, rfl⟩
  · cases hr
  · exact hrules r (List.mem_append_left _ (List.mem_append.mpr hr))
  · exact wanes_declarationPass
  · exact hrules r (List.mem_append_right _ (by simpa using hr))

end GoDraft
