import GoDraft.Pattern.Template

/-!
# GoDraft — what a pattern reads

`Pattern.ways` lists the ways a pattern can go from one place, best first. Many questions need less:
which text a way has read, and what its groups hold. `Pattern.Fits` answers them without places,
constructor by constructor, and forgets the order of preference and the conditions on places.

* `Pattern.exists_fits` — every way reads a text that fits;
* `Pattern.avoids`, `Pattern.groupAvoids` — the characters that no reading holds, and no group of one;
* `Pattern.fits_of_matchAt?` — so does every match, and its groups are those of the reading.
-/

namespace GoDraft

/-! ## Readings -/

/-- What the groups of a reading hold, newest first. -/
abbrev Notes := List (Nat × Text)

/-- The text noted for a group, empty where there is none. -/
def Notes.text (g : Notes) (index : Nat) : Text := (g.lookup index).getD []

namespace Pattern

/-- Readings by `R` one after another. -/
inductive Rounds (R : Text → Notes → Prop) : Text → Notes → Prop where
  | done : Rounds R [] []
  | next {s t : Text} {g h : Notes} (first : R s g) (others : Rounds R t h) :
      Rounds R (s ++ t) (h ++ g)

/-- Whether a pattern can read a text with given notes. -/
def Fits : Pattern → Text → Notes → Prop
  | .empty, s, g | .wordEdge, s, g | .lineStart, s, g => s = [] ∧ g = []
  | .one accepts, s, g => ∃ c, accepts c = true ∧ s = [c] ∧ g = []
  | .seq p q, s, g =>
    ∃ s₁ g₁ s₂ g₂, p.Fits s₁ g₁ ∧ q.Fits s₂ g₂ ∧ s = s₁ ++ s₂ ∧ g = g₂ ++ g₁
  | .alt p q, s, g => p.Fits s g ∨ q.Fits s g
  | .many p, s, g | .few p, s, g => Rounds p.Fits s g
  | .group index p, s, g => ∃ h, p.Fits s h ∧ g = (index, s) :: h

end Pattern

/-! ## Ways read what fits -/

namespace Way

/-- The texts of the groups of a way. -/
def notes (w : Way) : Notes := w.groups.map fun g => (g.1, g.2.text)

/-- From `w` to `v` a text is read by `R`, and its notes are put before those of `w`. -/
def Reads (R : Text → Notes → Prop) (w v : Way) : Prop :=
  ∃ s g, R s g ∧ w.cursor.rest = s ++ v.cursor.rest ∧ v.notes = g ++ w.notes

theorem Reads.round {R : Text → Notes → Prop} {w u v : Way} (h : w.Reads R u)
    (hs : u.Reads (Pattern.Rounds R) v) : w.Reads (Pattern.Rounds R) v := by
  obtain ⟨s, g, hR, hrest, hnotes⟩ := h
  obtain ⟨t, h, hRs, hrest', hnotes'⟩ := hs
  refine ⟨s ++ t, h ++ g, .next hR hRs, ?_, ?_⟩
  · rw [hrest, hrest', List.append_assoc]
  · rw [hnotes', hnotes, List.append_assoc]

theorem Reads.noRound {R : Text → Notes → Prop} (w : Way) : w.Reads (Pattern.Rounds R) w :=
  ⟨[], [], .done, rfl, rfl⟩

variable {step : Way → List Way}

/-- Rounds lead to the same ways whether more or fewer of them are tried first. -/
theorem mem_fewest_iff : ∀ {bound : Text} {w v : Way}, v ∈ w.fewest step bound ↔ v ∈ w.most step bound
  | [], _, _ => Iff.rfl
  | _ :: _, w, v => by
    rw [fewest, most, List.mem_cons, List.mem_append, List.mem_singleton, or_comm]
    simp only [List.mem_flatMap, mem_fewest_iff]

/-- What holds of a way and itself and goes on over a round holds of every way that rounds lead to. -/
theorem rounds_induct {P : Way → Way → Prop} (hdone : ∀ w, P w w)
    (hround : ∀ w u v, u ∈ step w → P u v → P w v) :
    ∀ (bound : Text) (w : Way), ∀ v ∈ w.most step bound, P w v
  | [], w, v, hv => by
    rw [most, List.mem_singleton] at hv
    exact hv ▸ hdone v
  | _ :: bound, w, v, hv => by
    rw [most, List.mem_append, List.mem_flatMap] at hv
    rcases hv with ⟨u, hu, hv⟩ | hv
    · exact hround w u v (List.mem_filter.mp hu).1 (rounds_induct hdone hround bound u v hv)
    · exact List.mem_singleton.mp hv ▸ hdone v

end Way

theorem Span.text_of_rest {k l : Cursor} {s : Text} (h : k.rest = s ++ l.rest) :
    (Span.mk k l).text = s := by
  simp [Span.text, Span.length, h]

namespace Pattern

/-- Every way of a pattern reads a text that fits it. -/
theorem exists_fits : ∀ (p : Pattern) (w : Way), ∀ v ∈ p.ways w, w.Reads p.Fits v
  | .empty, w, v, hv => by
    rw [ways, List.mem_singleton] at hv
    exact ⟨[], [], ⟨rfl, rfl⟩, by simp [hv], by simp [hv]⟩
  | .wordEdge, w, v, hv | .lineStart, w, v, hv => by
    rw [ways] at hv
    split at hv
    · rw [List.mem_singleton] at hv
      exact ⟨[], [], ⟨rfl, rfl⟩, by simp [hv], by simp [hv]⟩
    · simp at hv
  | .one accepts, w, v, hv => by
    rw [ways] at hv
    split at hv
    · simp at hv
    · rename_i c rest hrest
      split at hv
      · rename_i hc
        rw [List.mem_singleton] at hv
        exact ⟨[c], [], ⟨c, hc, rfl, rfl⟩, by simp [hv, hrest, Cursor.past], by simp [hv, Way.notes]⟩
      · simp at hv
  | .seq p q, w, v, hv => by
    rw [ways, List.mem_flatMap] at hv
    obtain ⟨u, hu, hv⟩ := hv
    obtain ⟨s₁, g₁, hp, hrest, hnotes⟩ := exists_fits p w u hu
    obtain ⟨s₂, g₂, hq, hrest', hnotes'⟩ := exists_fits q u v hv
    -- notes are kept last one first
    refine ⟨s₁ ++ s₂, g₂ ++ g₁, ⟨s₁, g₁, s₂, g₂, hp, hq, rfl, rfl⟩, ?_, ?_⟩
    · rw [hrest, hrest', List.append_assoc]
    · rw [hnotes', hnotes, List.append_assoc]
  | .alt p q, w, v, hv => by
    rw [ways, List.mem_append] at hv
    rcases hv with hv | hv
    · obtain ⟨s, g, hp, hread⟩ := exists_fits p w v hv
      exact ⟨s, g, Or.inl hp, hread⟩
    · obtain ⟨s, g, hq, hread⟩ := exists_fits q w v hv
      exact ⟨s, g, Or.inr hq, hread⟩
  | .many p, w, v, hv =>
    Way.rounds_induct (P := Way.Reads (Rounds p.Fits)) .noRound
      (fun w u _ hu => (exists_fits p w u hu).round) _ w v hv
  | .few p, w, v, hv =>
    Way.rounds_induct (P := Way.Reads (Rounds p.Fits)) .noRound
      (fun w u _ hu => (exists_fits p w u hu).round) _ w v (Way.mem_fewest_iff.mp hv)
  | .group index p, w, v, hv => by
    rw [ways, List.mem_map] at hv
    obtain ⟨u, hu, rfl⟩ := hv
    obtain ⟨s, g, hp, hrest, hnotes⟩ := exists_fits p w u hu
    refine ⟨s, (index, s) :: g, ⟨g, hp, rfl⟩, hrest, ?_⟩
    rw [Way.notes, List.map_cons, Span.text_of_rest hrest]
    exact congrArg _ hnotes

/-! ## What readings hold -/

/-- A fixed text reads itself. -/
theorem fits_text : ∀ {t s : Text} {g : Notes}, (text t).Fits s g → s = t ∧ g = []
  | [], _, _, h => h
  | _ :: _, _, _, ⟨_, _, _, _, ⟨_, hc, hs₁, hg₁⟩, h₂, hs, hg⟩ => by
    obtain ⟨hs₂, hg₂⟩ := fits_text h₂
    rw [hs, hg, hs₁, hg₁, hs₂, hg₂, beq_iff_eq.mp hc]
    exact ⟨rfl, rfl⟩

theorem fits_many_one {accepts : Char → Bool} {s : Text} {g : Notes}
    (h : Rounds (one accepts).Fits s g) : ∀ c ∈ s, accepts c = true := by
  induction h with
  | done => exact fun _ hc => absurd hc List.not_mem_nil
  | next first _ ih =>
    obtain ⟨d, hd, rfl, -⟩ := first
    rw [List.forall_mem_append, List.forall_mem_singleton]
    exact ⟨hd, ih⟩

theorem fits_many1_one {accepts : Char → Bool} {s : Text} {g : Notes}
    (h : (many1 (one accepts)).Fits s g) : s ≠ [] ∧ ∀ c ∈ s, accepts c = true := by
  obtain ⟨_, _, s', _, ⟨d, hd, rfl, -⟩, hs', rfl, -⟩ := h
  refine ⟨List.cons_ne_nil d s', ?_⟩
  rw [List.forall_mem_append, List.forall_mem_singleton]
  exact ⟨hd, fits_many_one hs'⟩

/-- Whether no part of a pattern takes a character. -/
def avoids (x : Char) : Pattern → Bool
  | .one accepts => !accepts x
  | .seq p q | .alt p q => p.avoids x && q.avoids x
  | .many p | .few p | .group _ p => p.avoids x
  | .empty | .wordEdge | .lineStart => true

theorem Rounds.not_mem {R : Text → Notes → Prop} {x : Char} (hR : ∀ s g, R s g → x ∉ s) {s : Text}
    {g : Notes} (h : Rounds R s g) : x ∉ s := by
  induction h with
  | done => exact List.not_mem_nil
  | next first _ ih =>
    rw [List.mem_append, not_or]
    exact ⟨hR _ _ first, ih⟩

theorem not_mem_of_avoids {x : Char} :
    ∀ {p : Pattern}, p.avoids x = true → ∀ s g, p.Fits s g → x ∉ s
  | .empty, _, _, _, h | .wordEdge, _, _, _, h | .lineStart, _, _, _, h => by simp [h.1]
  | .one accepts, hp, _, _, ⟨c, hc, hs, _⟩ => by
    rw [avoids, Bool.not_eq_true'] at hp
    rw [hs, List.mem_singleton]
    rintro rfl
    simp [hc] at hp
  | .seq p q, hp, _, _, ⟨_, _, _, _, h₁, h₂, hs, _⟩ => by
    rw [avoids, Bool.and_eq_true] at hp
    rw [hs, List.mem_append, not_or]
    exact ⟨not_mem_of_avoids hp.1 _ _ h₁, not_mem_of_avoids hp.2 _ _ h₂⟩
  | .alt p q, hp, s, g, h => by
    rw [avoids, Bool.and_eq_true] at hp
    rcases h with h | h
    · exact not_mem_of_avoids hp.1 s g h
    · exact not_mem_of_avoids hp.2 s g h
  | .many p, hp, _, _, h | .few p, hp, _, _, h => Rounds.not_mem (not_mem_of_avoids (p := p) hp) h
  | .group _ p, hp, s, _, ⟨g, h, _⟩ => not_mem_of_avoids (p := p) hp s g h

/-- Whether no group with a number takes a character. -/
def groupAvoids (index : Nat) (x : Char) : Pattern → Bool
  | .seq p q | .alt p q => p.groupAvoids index x && q.groupAvoids index x
  | .many p | .few p => p.groupAvoids index x
  | .group i p => (i != index || p.avoids x) && p.groupAvoids index x
  | .empty | .one _ | .wordEdge | .lineStart => true

theorem Rounds.forall_mem_notes {R : Text → Notes → Prop} {P : Nat × Text → Prop}
    (hR : ∀ s g, R s g → ∀ n ∈ g, P n) {s : Text} {g : Notes} (h : Rounds R s g) : ∀ n ∈ g, P n := by
  induction h with
  | done => exact fun _ hn => absurd hn List.not_mem_nil
  | next first _ ih =>
    rw [List.forall_mem_append]
    exact ⟨ih, hR _ _ first⟩

theorem not_mem_note_of_groupAvoids {index : Nat} {x : Char} :
    ∀ {p : Pattern}, p.groupAvoids index x = true → ∀ s g, p.Fits s g → ∀ n ∈ g, n.1 = index → x ∉ n.2
  | .empty, _, _, _, h | .wordEdge, _, _, _, h | .lineStart, _, _, _, h => by simp [h.2]
  | .one accepts, _, _, _, ⟨_, _, _, hg⟩ => by simp [hg]
  | .seq p q, hp, _, _, ⟨_, _, _, _, h₁, h₂, _, hg⟩ => by
    rw [groupAvoids, Bool.and_eq_true] at hp
    rw [hg, List.forall_mem_append]
    exact ⟨not_mem_note_of_groupAvoids hp.2 _ _ h₂, not_mem_note_of_groupAvoids hp.1 _ _ h₁⟩
  | .alt p q, hp, s, g, h => by
    rw [groupAvoids, Bool.and_eq_true] at hp
    rcases h with h | h
    · exact not_mem_note_of_groupAvoids hp.1 s g h
    · exact not_mem_note_of_groupAvoids hp.2 s g h
  | .many p, hp, _, _, h | .few p, hp, _, _, h =>
    Rounds.forall_mem_notes (not_mem_note_of_groupAvoids (p := p) hp) h
  | .group i p, hp, s, _, ⟨g, h, hg⟩ => by
    rw [groupAvoids, Bool.and_eq_true, Bool.or_eq_true] at hp
    rw [hg, List.forall_mem_cons]
    refine ⟨fun hi => ?_, not_mem_note_of_groupAvoids hp.2 s g h⟩
    have havoids : p.avoids x = true := hp.1.resolve_left (by simpa using hi)
    exact not_mem_of_avoids havoids s g h

/-! ## Matches -/

theorem lookup_map_snd {α β : Type} (f : α → β) (index : Nat) :
    ∀ l : List (Nat × α), (l.map fun g => (g.1, f g.2)).lookup index = (l.lookup index).map f
  | [] => rfl
  | (i, a) :: l => by
    rw [List.map_cons, List.lookup_cons, List.lookup_cons]
    cases index == i
    · exact lookup_map_snd f index l
    · rfl

/-- The text of a match fits its pattern, and the groups of the match are those of the reading. -/
theorem fits_of_matchAt? {p : Pattern} {k : Cursor} {m : Match} (h : p.matchAt? k = some m) :
    m.span.start = k ∧ k.rest = m.span.text ++ m.span.stop.rest ∧
      ∃ g, p.Fits m.span.text g ∧ ∀ index, m.group (index + 1) = g.text (index + 1) := by
  rw [matchAt?, Option.map_eq_some_iff] at h
  obtain ⟨w, hw, rfl⟩ := h
  obtain ⟨s, g, hfits, hrest, hnotes⟩ := exists_fits p _ w (List.mem_of_head? hw)
  have htext : (Span.mk k w.cursor).text = s := Span.text_of_rest hrest
  refine ⟨rfl, by rw [htext]; exact hrest, g, by rw [htext]; exact hfits, fun index => ?_⟩
  have hg : g = w.notes := by simpa [Way.notes] using hnotes.symm
  rw [hg, Notes.text, Way.notes, lookup_map_snd]
  rfl

/-- No group of a match holds what its pattern keeps out of it. -/
theorem not_mem_group_of_groupAvoids {p : Pattern} {k : Cursor} {m : Match} {index : Nat} {x : Char}
    (h : p.matchAt? k = some m) (hp : p.groupAvoids (index + 1) x = true) : x ∉ m.group (index + 1) := by
  obtain ⟨-, -, g, hfits, hgroups⟩ := fits_of_matchAt? h
  rw [hgroups, Notes.text]
  cases hlookup : g.lookup (index + 1) with
  | none => exact List.not_mem_nil
  | some t =>
    have hmem : (index + 1, t) ∈ g := by
      obtain ⟨g₁, g₂, rfl, -⟩ := List.lookup_eq_some_iff.mp hlookup
      simp
    exact not_mem_note_of_groupAvoids hp _ g hfits _ hmem rfl

/-! ## Replacing -/

section Replacing

variable {p : Pattern} {f : Match → Text} {before : Option Char} {offset : Nat} {c : Char}
  {rest : Text}

theorem replaceFrom_skip (n : Nat) :
    p.replaceFrom f before offset (n + 1) (c :: rest) =
      p.replaceFrom f (some c) (offset + c.utf8Size) n rest := by
  simp only [replaceFrom]

/-- Where nothing matches, a character is copied. -/
theorem replaceFrom_none (h : p.matchAt? ⟨before, offset, c :: rest⟩ = none) :
    p.replaceFrom f before offset 0 (c :: rest) =
      c :: p.replaceFrom f (some c) (offset + c.utf8Size) 0 rest := by
  simp only [replaceFrom, h]

/-- A match of no text counts as none. -/
theorem replaceFrom_zero {m : Match} (h : p.matchAt? ⟨before, offset, c :: rest⟩ = some m)
    (hm : m.span.length = 0) :
    p.replaceFrom f before offset 0 (c :: rest) =
      c :: p.replaceFrom f (some c) (offset + c.utf8Size) 0 rest := by
  simp only [replaceFrom, h, hm]

/-- A match is replaced, and the search goes on behind it. -/
theorem replaceFrom_some {m : Match} {n : Nat}
    (h : p.matchAt? ⟨before, offset, c :: rest⟩ = some m) (hm : m.span.length = n + 1) :
    p.replaceFrom f before offset 0 (c :: rest) =
      f m ++ p.replaceFrom f (some c) (offset + c.utf8Size) n rest := by
  simp only [replaceFrom, h, hm]

end Replacing

end Pattern

end GoDraft
