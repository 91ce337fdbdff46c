import GoDraft.Proofs.Body.Watch
import GoDraft.Proofs.Pattern.Spelling

/-!
# GoDraft — texts that the machine is caught by no sooner

A text can be put in the place of another when the machine is caught by it no sooner, whatever it has read before and
whatever comes behind. This goes from the parts of a text to the whole. Most parts leave the machine in a state that
does not hang on what they are: behind a bracket it begins anew, unless it has been caught.

* `Watch.under` — states of which one is caught no sooner than the other;
* `Covers` — texts of which one can be put in the place of the other;
* `Calm`, `Settles` — parts that the machine is not caught by, and those behind which it begins anew;
* `Rule.covers_around` — what a rule writes for a match, part by part around a group;
* `Rule.IsTame` — rules for which a look at their parts is enough.
-/

namespace GoDraft

open Text

/-! ## States -/

namespace Watch

/-- Whether the machine is caught from the first state no sooner than from the second. -/
def under : Watch → Watch → Bool
  | _, .caught | .slashes, _ => true
  | .free, .free | .free, .armed | .free, .equal => true
  | .slash, .free | .slash, .slash | .slash, .armed | .slash, .equal => true
  | .word, .free | .word, .word | .word, .name | .word, .armed | .word, .equal => true
  | .name, .name | .name, .armed | .armed, .armed | .equal, .equal => true
  | _, _ => false

/-- The state behind a part at which the machine begins anew. -/
def settled : Watch → Watch
  | .equal | .caught => .caught
  | _ => .free

/-- The state behind a word that is not the receiver. -/
def worded : Watch → Watch
  | .equal | .caught => .caught
  | _ => .word

variable {p p' : Bool} {q q' r : Watch} {k : Glyph}

theorem under_refl (q : Watch) : under q q = true := by
  revert q
  decide

theorem under_trans (h : under r q' = true) (h' : under q' q = true) : under r q = true := by
  revert q q' r
  decide

/-- One step keeps the order, also where only the second machine looks past parentheses. -/
theorem under_step (hp : p' = true → p = true) (h : under q' q = true) :
    under (q'.step p' k) (q.step p k) = true := by
  revert p p' q q' k
  decide

theorem isCaught_of_under (h : under q' q = true) (hq : q'.isCaught = true) : q.isCaught = true := by
  revert q q'
  decide

theorem under_caught (q : Watch) : under q .caught = true := by
  revert q
  decide

theorem settled_of_under (h : under q' q = true) : q.settled = .caught ∨ q.settled = .free ∧ q'.settled = .free := by
  revert q q'
  decide

theorem under_settled (h : under q' q = true) : under q'.settled q.settled = true := by
  revert q q'
  decide

theorem under_worded (h : under q' q = true) : under q'.worded q.worded = true := by
  revert q q'
  decide

theorem worded_under_settled (h : under q' q = true) : under q'.worded q.settled = true := by
  revert q q'
  decide

theorem settled_step (hk : k ≠ .equals) : (q.step p k).settled = q.settled := by
  revert p q k
  decide

theorem under_loose (h : under q' q = true) (hk : k = .space ∨ k = .loose ∨ p = true ∧ k = .paren) :
    under q' (q.step p k) = true := by
  revert p q q' k
  decide

end Watch

/-! ## Texts in the place of others -/

/-- The machine is caught by the second text no sooner than by the first, wherever they stand. -/
def Covers (p p' : Bool) (s s' : Text) : Prop :=
  ∀ q q', Watch.under q' q = true → Watch.under (Watch.run p' q' s') (Watch.run p q s) = true

instance (p p' : Bool) (s s' : Text) : Decidable (Covers p p' s s') := inferInstanceAs (Decidable (∀ _ _, _))

namespace Covers

variable {p p' p'' : Bool} {s s' t t' u : Text}

theorem refl (hp : p' = true → p = true) (s : Text) : Covers p p' s s := by
  intro q q' h
  induction s generalizing q q' with
  | nil => exact h
  | cons c s ih => exact ih _ _ (Watch.under_step hp h)

theorem trans (h : Covers p p' s s') (h' : Covers p' p'' s' u) : Covers p p'' s u := by
  intro q q' hq
  exact Watch.under_trans (h' q q' hq) (h q q (Watch.under_refl q))

theorem append (h : Covers p p' s s') (h' : Covers p p' t t') : Covers p p' (s ++ t) (s' ++ t') := by
  intro q q' hq
  rw [Watch.run_append, Watch.run_append]
  exact h' _ _ (h q q' hq)

/-- What may stand between a name and its equals sign may be left out. -/
theorem drop (h : ∀ c ∈ s, isLoose p c = true) : Covers p p' s [] := by
  intro q q' hq
  induction s generalizing q with
  | nil => exact hq
  | cons c s ih =>
    rw [List.forall_mem_cons] at h
    exact ih h.2 _ (Watch.under_loose hq (Glyph.isLoose_iff.mp h.1))

/-- **A text that takes the place of another assigns to the receiver only where that one does.** -/
theorem assigns (h : Covers p p' s s') (hassigns : Assigns p' receiver s') : Assigns p receiver s := by
  rw [← isCaught_run_iff] at hassigns ⊢
  exact Watch.isCaught_of_under (h .free .free (Watch.under_refl _)) hassigns

end Covers

/-! ## Parts -/

/-- The machine is not caught by a text, unless it was about to be. -/
def Calm (p : Bool) (s : Text) : Prop := ∀ q, (Watch.run p q s).settled = q.settled

/-- The machine begins anew behind a text. -/
def Settles (p : Bool) (s : Text) : Prop := ∀ q, Watch.run p q s = q.settled

/-- The machine knows behind a text that a word goes on, which is not the receiver. -/
def Words (p : Bool) (s : Text) : Prop := ∀ q, Watch.run p q s = q.worded

instance (p : Bool) (s : Text) : Decidable (Calm p s) := inferInstanceAs (Decidable (∀ _, _))

instance (p : Bool) (s : Text) : Decidable (Settles p s) := inferInstanceAs (Decidable (∀ _, _))

instance (p : Bool) (s : Text) : Decidable (Words p s) := inferInstanceAs (Decidable (∀ _, _))

section Parts

variable {p p' : Bool} {s s' t u w : Text}

theorem Calm.append (hs : Calm p s) (ht : Calm p t) : Calm p (s ++ t) := by
  intro q
  rw [Watch.run_append, ht, hs]

theorem calm_of_notMem (h : '=' ∉ s) : Calm p s := by
  intro q
  refine Watch.run_induct (P := fun r => r.settled = q.settled) (fun c hc r hr => ?_) rfl
  rw [Watch.settled_step, hr]
  exact fun hequals => h (Glyph.of_eq_equals.mp hequals ▸ hc)

theorem calm_of_isWordChar (h : ∀ c ∈ s, isWordChar c = true) : Calm p s :=
  calm_of_notMem fun hmem => absurd (h _ hmem) (by decide)

theorem calm_of_isBlank (h : ∀ c ∈ s, isBlank c = true) : Calm p s :=
  calm_of_notMem fun hmem => absurd (h _ hmem) (by decide)

theorem Calm.settles (hs : Calm p s) (ht : Settles p t) : Settles p (s ++ t) := by
  intro q
  rw [Watch.run_append, ht, hs]

theorem Settles.calm (hs : Settles p s) : Calm p s := by
  have hsettled : ∀ q : Watch, q.settled.settled = q.settled := by decide
  intro q
  rw [hs, hsettled]

theorem run_loose_settled (h : ∀ c ∈ u, isLoose p c = true) (q : Watch) : Watch.run p q.settled u = q.settled := by
  have hstep : ∀ (p : Bool) (q : Watch) (k : Glyph), (k = .space ∨ k = .loose ∨ p = true ∧ k = .paren) →
      q.settled.step p k = q.settled := by decide
  refine Watch.run_induct (P := (· = q.settled)) (fun c hc r hr => ?_) rfl
  rw [hr, hstep p q _ (Glyph.isLoose_iff.mp (h c hc))]

theorem Settles.append_loose (hs : Settles p s) (h : ∀ c ∈ u, isLoose p c = true) : Settles p (s ++ u) := by
  intro q
  rw [Watch.run_append, hs, run_loose_settled h]

theorem isLoose_of_isBlank {c : Char} (h : isBlank c = true) : isLoose p c = true := by
  simp [isLoose, h]

theorem Covers.of_settles (hs : Settles p s) (hs' : Settles p' s') : Covers p p' s s' := by
  intro q q' hq
  rw [hs, hs']
  exact Watch.under_settled hq

theorem run_word_of_word (h : ∀ c ∈ u, isWordChar c = true) : Watch.run p .word u = .word := by
  have hstep : ∀ (p : Bool) (k : Glyph), k = .receiver ∨ k = .letter → Watch.word.step p k = .word := by decide
  refine Watch.run_induct (P := (· = .word)) (fun c hc q hq => ?_) rfl
  rw [hq, hstep p _ (Glyph.of_word (h c hc))]

theorem worded_eq (q : Watch) : q.worded = .word ∨ q.worded = .caught := by
  revert q
  decide

theorem words_of_ne_receiver (h : ∀ c ∈ w, isWordChar c = true) (hne : w ≠ []) (hreceiver : w ≠ receiver) :
    Words p w := by
  have hstep : ∀ (p : Bool) (q : Watch) (k : Glyph), k = .receiver ∨ k = .letter →
      q.step p k = q.worded ∨ k = .receiver ∧ q.worded = .word ∧ q.step p k = .name := by decide
  have hname : ∀ (p : Bool) (k : Glyph), k = .receiver ∨ k = .letter → Watch.name.step p k = .word := by decide
  intro q
  obtain ⟨c, u, rfl⟩ := List.exists_cons_of_ne_nil hne
  rw [List.forall_mem_cons] at h
  rw [Watch.run_cons]
  rcases hstep p q _ (Glyph.of_word h.1) with hq | ⟨hc, hq, hq'⟩
  · rw [hq]
    rcases worded_eq q with hword | hcaught
    · rw [hword, run_word_of_word h.2]
    · rw [hcaught, Watch.run_caught]
  · -- the receiver's letter alone would be the receiver
    cases u with
    | nil => exact absurd (congrArg (· :: []) (Glyph.of_eq_receiver.mp hc)) hreceiver
    | cons d u =>
      rw [List.forall_mem_cons] at h
      rw [hq, hq', Watch.run_cons, hname p _ (Glyph.of_word h.2.1), run_word_of_word h.2.2]

theorem Words.append_word (hs : Words p s) (h : ∀ c ∈ w, isWordChar c = true) : Words p (s ++ w) := by
  intro q
  rw [Watch.run_append, hs]
  rcases worded_eq q with hword | hcaught
  · rw [hword, run_word_of_word h]
  · rw [hcaught, Watch.run_caught]

/-- A text behind a word, where the machine begins anew behind both. -/
theorem Words.settles (hs : Words p s) (ht : Watch.run p .word t = .free) : Settles p (s ++ t) := by
  have hworded : ∀ q : Watch, q.worded = .word ∧ q.settled = .free ∨ q.worded = .caught ∧ q.settled = .caught := by
    decide
  intro q
  rw [Watch.run_append, hs]
  rcases hworded q with ⟨hq, hq'⟩ | ⟨hq, hq'⟩
  · rw [hq, hq', ht]
  · rw [hq, hq', Watch.run_caught]

theorem calm_of_isDotted (h : IsDotted s) : Calm p s := calm_of_notMem fun hmem => absurd (h _ hmem) (by decide)

theorem isDotted_of_isWordChar (h : ∀ c ∈ s, isWordChar c = true) : IsDotted s := by
  intro c hc
  rw [isDottedChar, h c hc, Bool.true_or]

/-- Behind a dotted name a word goes on, or the receiver stands. -/
theorem run_free_dotted (hne : s ≠ []) (h : IsDotted s) :
    Watch.run p .free s = .word ∨ Watch.run p .free s = .name := by
  have hletter : ∀ (p : Bool) (q : Watch) (k : Glyph), k = .receiver ∨ k = .letter ∨ k = .dot →
      q.step p k = .word ∨ q.step p k = .name ∨ q.step p k = .caught := by decide
  have hcalm := calm_of_isDotted (p := p) h .free
  obtain ⟨u, c, rfl⟩ : ∃ u c, s = u ++ [c] := ⟨_, _, (List.dropLast_append_getLast hne).symm⟩
  have hc : isDottedChar c = true := h c (by simp)
  rw [(Glyph.of_front c).1, decide_eq_true_eq] at hc
  rw [Watch.run_append] at hcalm ⊢
  rcases hletter p (Watch.run p .free u) _ hc with hq | hq | hq
  · exact .inl hq
  · exact .inr hq
  · rw [Watch.run_cons, Watch.run_nil, hq] at hcalm
    cases hcalm

theorem run_blanks_of_word (hne : u ≠ []) (h : ∀ c ∈ u, isBlank c = true) : Watch.run p .word u = .free := by
  have hstep : ∀ (p : Bool) (k : Glyph), k = .space ∨ k = .loose → Watch.word.step p k = .free := by decide
  obtain ⟨c, u, rfl⟩ := List.exists_cons_of_ne_nil hne
  rw [List.forall_mem_cons] at h
  rw [Watch.run_cons, hstep p _ (Glyph.of_blank h.1)]
  exact run_loose_settled (fun d hd => isLoose_of_isBlank (h.2 d hd)) .free

theorem Words.covers (hs : Words p s) (hs' : Words p' s') : Covers p p' s s' := by
  intro q q' hq
  rw [hs, hs']
  exact Watch.under_worded hq

/-- A word may stand behind a text instead of another place where the machine begins anew. -/
theorem Covers.of_words (hs : Settles p s) (hs' : Words p' s') : Covers p p' s s' := by
  intro q q' hq
  rw [hs, hs']
  exact Watch.worded_under_settled hq

end Parts

/-! ## Around a group -/

namespace Segment

theorem Spells.of_text {t s : Text} {segments : List Segment} {g : Notes} (h : Spells (.text t :: segments) s g) :
    ∃ s', s = t ++ s' ∧ Spells segments s' g := by
  cases h with
  | text _ rest => exact ⟨_, rfl, rest⟩

theorem Spells.of_filler {pat : Pattern} {s : Text} {segments : List Segment} {g : Notes}
    (h : Spells (.filler pat :: segments) s g) : ∃ u s', pat.Fits u [] ∧ s = u ++ s' ∧ Spells segments s' g := by
  cases h with
  | filler first rest => exact ⟨_, _, first, rfl, rest⟩

theorem Spells.of_group {i : Nat} {pat : Pattern} {s : Text} {segments : List Segment} {g : Notes}
    (h : Spells (.group i pat :: segments) s g) :
    ∃ u s' g', pat.Fits u [] ∧ s = u ++ s' ∧ g = g' ++ [(i, u)] ∧ Spells segments s' g' := by
  cases h with
  | group first rest => exact ⟨_, _, _, first, rfl, rfl, rest⟩

theorem Spells.eq_nil {s : Text} {g : Notes} (h : Spells [] s g) : s = [] ∧ g = [] := by
  cases h
  exact ⟨rfl, rfl⟩

theorem Spells.of_append {segments segments' : List Segment} {s : Text} {g : Notes}
    (h : Spells (segments ++ segments') s g) :
    ∃ s₁ g₁ s₂ g₂, Spells segments s₁ g₁ ∧ Spells segments' s₂ g₂ ∧ s = s₁ ++ s₂ ∧ g = g₂ ++ g₁ := by
  induction segments generalizing s g with
  | nil => exact ⟨[], [], s, g, .nil, h, rfl, (List.append_nil g).symm⟩
  | cons segment segments ih =>
    cases h with
    | text t rest =>
      obtain ⟨s₁, g₁, s₂, g₂, h₁, h₂, rfl, rfl⟩ := ih rest
      exact ⟨t ++ s₁, g₁, s₂, g₂, .text t h₁, h₂, (List.append_assoc _ _ _).symm, rfl⟩
    | @filler _ u first _ _ _ rest =>
      obtain ⟨s₁, g₁, s₂, g₂, h₁, h₂, rfl, rfl⟩ := ih rest
      exact ⟨u ++ s₁, g₁, s₂, g₂, .filler first h₁, h₂, (List.append_assoc _ _ _).symm, rfl⟩
    | @group i _ u first _ _ _ rest =>
      obtain ⟨s₁, g₁, s₂, g₂, h₁, h₂, rfl, rfl⟩ := ih rest
      exact ⟨u ++ s₁, g₁ ++ [(i, u)], s₂, g₂, .group first h₁, h₂, (List.append_assoc _ _ _).symm,
        List.append_assoc _ _ _⟩

/-- The segments before a group. -/
def before (i : Nat) (segments : List Segment) : List Segment := segments.takeWhile (·.index? != some i)

/-- The segments behind a group. -/
def behind (i : Nat) (segments : List Segment) : List Segment := (segments.dropWhile (·.index? != some i)).tail

/-- What is read around a group. -/
theorem Spells.exists_around {segments : List Segment} {s : Text} {g : Notes} (h : Spells segments s g)
    (hnodup : (indices segments).Nodup) {i : Nat} (hi : i ∈ indices segments) :
    ∃ s₁ g₁ s₂ g₂, s = s₁ ++ (g.text i ++ s₂) ∧ Spells (before i segments) s₁ g₁ ∧
      Spells (behind i segments) s₂ g₂ := by
  induction h with
  | nil => cases hi
  | text t _ ih =>
    obtain ⟨s₁, g₁, s₂, g₂, rfl, h₁, h₂⟩ := ih hnodup hi
    exact ⟨t ++ s₁, g₁, s₂, g₂, by rw [List.append_assoc], .text t h₁, h₂⟩
  | @filler _ u first _ _ _ _ ih =>
    obtain ⟨s₁, g₁, s₂, g₂, rfl, h₁, h₂⟩ := ih hnodup hi
    exact ⟨u ++ s₁, g₁, s₂, g₂, by rw [List.append_assoc], .filler first h₁, h₂⟩
  | @group j pat u first segments s g rest ih =>
    have hcons : indices (.group j pat :: segments) = j :: indices segments := rfl
    rw [hcons, List.nodup_cons] at hnodup
    -- the note of this group is not hidden by a later one with its number
    have hnew : j ∉ g.map Prod.fst := by
      rw [rest.map_fst, List.mem_reverse]
      exact hnodup.1
    rw [text_append_singleton hnew]
    by_cases hij : i = j
    · subst hij
      have hbefore : before i (.group i pat :: segments) = [] := by simp [before, index?]
      have hbehind : behind i (.group i pat :: segments) = segments := by simp [behind, index?]
      rw [hbefore, hbehind, if_pos rfl]
      exact ⟨[], [], s, g, rfl, .nil, rest⟩
    · have hne : (some j != some i) = true := by simpa using Ne.symm hij
      have hbefore : before i (.group j pat :: segments) = .group j pat :: before i segments :=
        List.takeWhile_cons_of_pos hne
      have hbehind : behind i (.group j pat :: segments) = behind i segments :=
        congrArg List.tail (List.dropWhile_cons_of_pos hne)
      obtain ⟨s₁, g₁, s₂, g₂, rfl, h₁, h₂⟩ := ih hnodup.2 ((List.mem_cons.mp (hcons ▸ hi)).resolve_left hij)
      rw [hbefore, hbehind, if_neg hij]
      exact ⟨u ++ s₁, _, s₂, g₂, by rw [List.append_assoc], .group first h₁, h₂⟩

end Segment

namespace Template

/-- The number of a group in a template. -/
def index? : Piece → Option Nat
  | .text _ => none
  | .group index => some index

/-- The template before a group. -/
def before (i : Nat) (tmpl : Template) : Template := tmpl.takeWhile (index? · != some i)

/-- The template behind a group. -/
def behind (i : Nat) (tmpl : Template) : Template := (tmpl.dropWhile (index? · != some i)).tail

theorem fill_around {i : Nat} {m : Match} : ∀ tmpl : Template, i ∈ tmpl.uses →
    tmpl.fill m = (tmpl.before i).fill m ++ (m.group i ++ (tmpl.behind i).fill m)
  | [], h => absurd h List.not_mem_nil
  | .text t :: tmpl, h => by
    have hfill : fill (.text t :: tmpl) m = t ++ fill tmpl m := rfl
    rw [hfill, fill_around tmpl h, ← List.append_assoc]
    rfl
  | .group j :: tmpl, h => by
    by_cases hij : i = j
    · subst hij
      have hbefore : before i (.group i :: tmpl) = [] := by simp [before, index?]
      have hbehind : behind i (.group i :: tmpl) = tmpl := by simp [behind, index?]
      rw [hbefore, hbehind]
      rfl
    · have hne : (some j != some i) = true := by simpa using Ne.symm hij
      have hbefore : before i (.group j :: tmpl) = .group j :: before i tmpl :=
        List.takeWhile_cons_of_pos hne
      have hbehind : behind i (.group j :: tmpl) = behind i tmpl :=
        congrArg List.tail (List.dropWhile_cons_of_pos hne)
      have hfill : fill (.group j :: tmpl) m = m.group j ++ fill tmpl m := rfl
      rw [uses, List.mem_cons] at h
      rw [hbefore, hbehind, hfill, fill_around tmpl (h.resolve_left hij), ← List.append_assoc]
      rfl

end Template

namespace Rule

variable {p p' : Bool} {r : Rule} {segments : List Segment} {k : Cursor} {m : Match}

/-- What a rule writes for a match can be put in its place where this holds before a group and behind it. -/
theorem covers_around (hp : p' = true → p = true) (hspelled : r.pattern.SpelledBy segments)
    (hnodup : (Segment.indices segments).Nodup) (hzero : 0 ∉ Segment.indices segments) {i : Nat}
    (hi : i ∈ Segment.indices segments) (huses : i ∈ r.template.uses) (hm : r.pattern.matchAt? k = some m)
    (hbefore : ∀ s g, Segment.Spells (Segment.before i segments) s g →
      Covers p p' s ((r.template.before i).fill m))
    (hbehind : ∀ s g, Segment.Spells (Segment.behind i segments) s g →
      Covers p p' s ((r.template.behind i).fill m)) :
    Covers p p' m.span.text (r.template.fill m) := by
  obtain ⟨j, rfl⟩ := Nat.exists_eq_succ_of_ne_zero fun h : i = 0 => hzero (h ▸ hi)
  obtain ⟨-, -, g, hfits, hgroup⟩ := Pattern.fits_of_matchAt? hm
  obtain ⟨s₁, g₁, s₂, g₂, hs, h₁, h₂⟩ := (hspelled _ g hfits).exists_around hnodup hi
  rw [hs, Template.fill_around _ huses, hgroup]
  exact (hbefore s₁ g₁ h₁).append ((Covers.refl hp _).append (hbehind s₂ g₂ h₂))

end Rule

/-! ## Tame rules -/

namespace Segment

/-- Whether no reading of a segment has an equals sign. -/
def isCalm : Segment → Bool
  | .text t => !t.elem '='
  | .filler pat | .group _ pat => pat.avoids '='

/-- Whether a segment is a text behind which the machine begins anew. -/
def isSettling (p : Bool) : Segment → Bool
  | .text t => decide (Settles p t)
  | _ => false

/-- Whether the machine begins anew behind the readings of segments: a look at the last one, where those before it
have no equals sign. -/
def settle (p : Bool) : List Segment → Bool
  | [] => false
  | segment :: segments =>
    if segments.isEmpty then segment.isSettling p else segment.isCalm && settle p segments

theorem Spells.settles {p : Bool} {segments : List Segment} {s : Text} {g : Notes} (h : Spells segments s g)
    (hsettle : settle p segments = true) : Settles p s := by
  induction h with
  | nil => cases hsettle
  | @text t segments s g rest ih =>
    rw [settle] at hsettle
    split at hsettle
    · rename_i hempty
      obtain rfl := List.isEmpty_iff.mp hempty
      cases rest
      rw [List.append_nil]
      exact of_decide_eq_true hsettle
    · rw [Bool.and_eq_true] at hsettle
      exact (calm_of_notMem (by simpa [isCalm] using hsettle.1)).settles (ih hsettle.2)
  | filler first rest ih | group first rest ih =>
    rw [settle] at hsettle
    split at hsettle
    · cases hsettle
    · rw [Bool.and_eq_true] at hsettle
      exact (calm_of_notMem (Pattern.not_mem_of_avoids hsettle.1 _ _ first)).settles (ih hsettle.2)

theorem mem_indices_of_mem_freeGroups {kept : Text} {segments : List Segment} {i : Nat}
    (h : i ∈ freeGroups kept segments) : i ∈ indices segments := by
  obtain ⟨segment, hmem, hsegment⟩ := List.mem_filterMap.mp h
  cases segment with
  | text t => cases hsegment
  | filler pat => cases hsegment
  | group j pat =>
    obtain ⟨-, rfl⟩ : _ ∧ j = i := by simpa using hsegment
    exact List.mem_filterMap.mpr ⟨_, hmem, rfl⟩

end Segment

namespace Template

/-- Whether no text for a piece has an equals sign, where those of some groups have none. -/
def isCalm (calm : List Nat) : Piece → Bool
  | .text t => !t.elem '='
  | .group i => calm.elem i

/-- Whether a piece is a text behind which the machine begins anew. -/
def isSettling (p : Bool) : Piece → Bool
  | .text t => decide (Settles p t)
  | .group _ => false

/-- Whether the machine begins anew behind a template: a look at its last piece, where those before it have no equals
sign. -/
def settle (p : Bool) (calm : List Nat) : Template → Bool
  | [] => false
  | piece :: tmpl => if tmpl.isEmpty then isSettling p piece else isCalm calm piece && settle p calm tmpl

theorem settles_fill {p : Bool} {calm : List Nat} {m : Match} (hcalm : ∀ i ∈ calm, '=' ∉ m.group i)
    {tmpl : Template} (hsettle : settle p calm tmpl = true) : Settles p (tmpl.fill m) := by
  induction tmpl with
  | nil => cases hsettle
  | cons piece tmpl ih =>
    rw [settle] at hsettle
    have hfill : fill (piece :: tmpl) m = fill [piece] m ++ fill tmpl m := by simp [fill]
    rw [hfill]
    split at hsettle
    · rename_i hempty
      obtain rfl := List.isEmpty_iff.mp hempty
      cases piece with
      | text t => simpa [fill] using of_decide_eq_true hsettle
      | group i => cases hsettle
    · rw [Bool.and_eq_true] at hsettle
      refine (calm_of_notMem ?_).settles (ih hsettle.2)
      cases piece with
      | text t => simpa [fill, isCalm] using hsettle.1
      | group i => simpa [fill] using hcalm i (List.elem_iff.mp hsettle.1)

end Template

namespace Rule

/-- Whether the machine begins anew behind segments and behind a template. -/
def settles (p : Bool) (calm : List Nat) (segments : List Segment) (tmpl : Template) : Bool :=
  Segment.settle p segments && tmpl.settle p calm

/-- Whether the machine begins anew behind segments and behind a template, or where a group is given, behind what they
have before it and behind it. -/
def settlesAround (p : Bool) (segments : List Segment) (tmpl : Template) : Option Nat → Bool
  | none => settles p (Segment.freeGroups "=" segments) segments tmpl
  | some i =>
    (Segment.indices segments).elem i && tmpl.uses.elem i &&
      (settles p (Segment.freeGroups "=" segments) (Segment.before i segments) (tmpl.before i) &&
        settles p (Segment.freeGroups "=" segments) (Segment.behind i segments) (tmpl.behind i))

/-- A look at its parts, as a whole or around a group, tells that what a rule writes can be put in the place of a
match. -/
def IsTame (p : Bool) (around : Option Nat) (r : Rule) : Prop :=
  ∃ segments, r.pattern.SpelledBy segments ∧ (Segment.indices segments).Nodup ∧ 0 ∉ Segment.indices segments ∧
    settlesAround p segments r.template around = true

/-- The groups that take no equals sign hold none. -/
theorem notMem_group {r : Rule} {segments : List Segment} (hspelled : r.pattern.SpelledBy segments)
    (hnodup : (Segment.indices segments).Nodup) (hzero : 0 ∉ Segment.indices segments) {k : Cursor} {m : Match}
    (hm : r.pattern.matchAt? k = some m) : ∀ i ∈ Segment.freeGroups "=" segments, '=' ∉ m.group i := by
  intro i hi
  obtain ⟨j, rfl⟩ := Nat.exists_eq_succ_of_ne_zero fun h : i = 0 => hzero (h ▸ Segment.mem_indices_of_mem_freeGroups hi)
  obtain ⟨-, -, g, hfits, hgroup⟩ := Pattern.fits_of_matchAt? hm
  have hnil := (hspelled _ g hfits).trace_eq_nil hnodup _ hi
  rw [trace_eq_nil_iff] at hnil
  rw [hgroup]
  exact hnil '=' (by decide)

theorem covers_of_settles {p : Bool} {calm : List Nat} {segments : List Segment} {tmpl : Template}
    (h : settles p calm segments tmpl = true) {m : Match} (hcalm : ∀ i ∈ calm, '=' ∉ m.group i) {s : Text} {g : Notes}
    (hs : Segment.Spells segments s g) : Covers p p s (tmpl.fill m) := by
  rw [settles, Bool.and_eq_true] at h
  exact .of_settles (hs.settles h.1) (Template.settles_fill hcalm h.2)

theorem IsTame.covers {p : Bool} {around : Option Nat} {r : Rule} (hr : r.IsTame p around) {k : Cursor} {m : Match}
    (hm : r.pattern.matchAt? k = some m) : Covers p p m.span.text (r.template.fill m) := by
  obtain ⟨segments, hspelled, hnodup, hzero, hparts⟩ := hr
  have hcalm := notMem_group hspelled hnodup hzero hm
  cases around with
  | none =>
    obtain ⟨-, -, g, hfits, -⟩ := Pattern.fits_of_matchAt? hm
    exact covers_of_settles hparts hcalm (hspelled _ g hfits)
  | some i =>
    simp only [settlesAround, Bool.and_eq_true, List.elem_iff] at hparts
    obtain ⟨⟨hi, huses⟩, hbefore, hbehind⟩ := hparts
    exact covers_around id hspelled hnodup hzero hi huses hm (fun _ _ => covers_of_settles hbefore hcalm)
      (fun _ _ => covers_of_settles hbehind hcalm)

end Rule

end GoDraft
