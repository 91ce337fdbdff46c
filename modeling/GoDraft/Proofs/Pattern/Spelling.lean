import GoDraft.Proofs.Pattern.Weight

/-!
# GoDraft — what a rule does to some characters

A rule moves the groups of a match about and writes fixed texts between them. To follow a few characters
through it, say the brackets, the rest of the text can be left out: a match then is a trail of such
characters with places for its groups, and so is what the rule writes for it.

The trail of a pattern is read off its segments: fixed texts, groups, and fillers that hold none of the
characters.

* `Segment`, `Pattern.SpelledBy` — a pattern as segments one after another;
* `Text.trace` — the characters that are followed, in their order;
* `Trail`, `Trail.read` — such characters with places for groups;
* `Rule.Trails`, `Rule.Trails.trace_eq` — the trails of a rule, before and after.
-/

namespace GoDraft

/-! ## Segments -/

/-- A part of what a pattern reads: a fixed text, what a pattern without groups reads, or a group. -/
inductive Segment where
  | text (t : Text)
  | filler (p : Pattern)
  | group (index : Nat) (p : Pattern)

namespace Segment

/-- Segments one after another read a text with notes. -/
inductive Spells : List Segment → Text → Notes → Prop where
  | nil : Spells [] [] []
  | text (t : Text) {segments : List Segment} {s : Text} {g : Notes} (rest : Spells segments s g) :
      Spells (.text t :: segments) (t ++ s) g
  | filler {p : Pattern} {u : Text} (first : p.Fits u []) {segments : List Segment} {s : Text} {g : Notes}
      (rest : Spells segments s g) : Spells (.filler p :: segments) (u ++ s) g
  | group {index : Nat} {p : Pattern} {u : Text} (first : p.Fits u []) {segments : List Segment} {s : Text}
      {g : Notes} (rest : Spells segments s g) :
      Spells (.group index p :: segments) (u ++ s) (g ++ [(index, u)])

theorem Spells.append {segments segments' : List Segment} {s s' : Text} {g g' : Notes}
    (h : Spells segments s g) (h' : Spells segments' s' g') :
    Spells (segments ++ segments') (s ++ s') (g' ++ g) := by
  induction h with
  | nil => rwa [List.append_nil]
  | text t _ ih =>
    rw [List.append_assoc]
    exact .text t ih
  | filler first _ ih =>
    rw [List.append_assoc]
    exact .filler first ih
  | group first _ ih =>
    rw [List.append_assoc, ← List.append_assoc g']
    exact .group first ih

/-- The number of a group. -/
def index? : Segment → Option Nat
  | .group index _ => some index
  | _ => none

/-- The numbers of the groups. -/
def indices (segments : List Segment) : List Nat := segments.filterMap index?

/-- The notes are those of the groups, newest first. -/
theorem Spells.map_fst {segments : List Segment} {s : Text} {g : Notes} (h : Spells segments s g) :
    g.map Prod.fst = (indices segments).reverse := by
  induction h with
  | nil => rfl
  | text _ _ ih => exact ih
  | filler _ _ ih => exact ih
  | group _ _ ih =>
    rw [List.map_append, ih]
    exact (List.reverse_cons).symm

end Segment

namespace Pattern

open Segment

/-- Whatever a pattern reads, segments read it with the same notes. -/
def SpelledBy (p : Pattern) (segments : List Segment) : Prop :=
  ∀ s g, p.Fits s g → Spells segments s g

namespace SpelledBy

variable {p q : Pattern} {segments segments' : List Segment}

theorem seq (hp : p.SpelledBy segments) (hq : q.SpelledBy segments') :
    (p ++ q).SpelledBy (segments ++ segments') := by
  rintro s g ⟨s₁, g₁, s₂, g₂, h₁, h₂, rfl, rfl⟩
  exact (hp s₁ g₁ h₁).append (hq s₂ g₂ h₂)

theorem text (t : Text) : (text t).SpelledBy [.text t] := by
  intro s g h
  obtain ⟨rfl, rfl⟩ := fits_text h
  have hspells := Spells.text s .nil
  rwa [List.append_nil] at hspells

theorem filler (hfree : p.isGroupFree = true) : p.SpelledBy [.filler p] := by
  intro s g h
  obtain rfl := notes_eq_nil_of_isGroupFree hfree s g h
  have hspells := Spells.filler h .nil
  rwa [List.append_nil] at hspells

theorem group {index : Nat} (hfree : p.isGroupFree = true) :
    (group index p).SpelledBy [.group index p] := by
  rintro s g ⟨h, hp, rfl⟩
  obtain rfl := notes_eq_nil_of_isGroupFree hfree s h hp
  have hspells : Spells [.group index p] (s ++ []) ([] ++ [(index, s)]) := .group hp .nil
  rwa [List.append_nil, List.nil_append] at hspells

end SpelledBy

end Pattern

/-! ## Traces and trails -/

namespace Text

/-- The characters of a text that are followed, in their order. -/
def trace (t kept : Text) : Text := t.filter kept.elem

variable {kept : Text}

@[simp] theorem trace_nil : trace [] kept = [] := rfl

@[simp] theorem trace_append (s t : Text) : trace (s ++ t) kept = s.trace kept ++ t.trace kept :=
  List.filter_append s t

theorem trace_cons (c : Char) (t : Text) : trace (c :: t) kept = trace [c] kept ++ t.trace kept :=
  trace_append [c] t

@[simp] theorem trace_reverse (t : Text) : trace t.reverse kept = List.reverse (t.trace kept) :=
  List.filter_reverse

theorem trace_eq_nil_iff {t : Text} : t.trace kept = [] ↔ ∀ c ∈ kept, c ∉ t := by
  rw [trace, List.filter_eq_nil_iff]
  constructor
  · intro h c hc ht
    exact h c ht (List.elem_iff.mpr hc)
  · intro h c ht hc
    exact h c (List.elem_iff.mp hc) ht

theorem mem_trace {c : Char} (hc : c ∈ kept) {t : Text} : c ∈ t.trace kept ↔ c ∈ t := by
  rw [trace, List.mem_filter]
  exact and_iff_left (List.elem_iff.mpr hc)

end Text

/-- Whether a pattern reads none of some characters. -/
def Pattern.isFreeOf (kept : Text) (p : Pattern) : Bool := kept.all fun c => p.avoids c

theorem Pattern.trace_eq_nil_of_isFreeOf {kept : Text} {p : Pattern} (hp : p.isFreeOf kept = true) {s : Text}
    {g : Notes} (h : p.Fits s g) : s.trace kept = [] := by
  rw [Text.trace_eq_nil_iff]
  intro c hc
  exact not_mem_of_avoids (List.all_eq_true.mp hp c hc) s g h

/-- A character that is followed, or the place of a group. -/
inductive Stop where
  | char (c : Char)
  | group (index : Nat)
  deriving DecidableEq, Repr

/-- Characters that are followed, with places for groups. -/
abbrev Trail := List Stop

/-- The trail of a fixed text. -/
def Trail.ofText (kept t : Text) : Trail := (t.trace kept).map .char

/-- What is followed in a trail whose groups are filled in. -/
def Trail.read (kept : Text) (g : Notes) (trail : Trail) : Text :=
  trail.flatMap fun
    | .char c => [c]
    | .group index => (g.text index).trace kept

namespace Trail

variable {kept : Text} {g : Notes}

@[simp] theorem read_nil : read kept g [] = [] := rfl

@[simp] theorem read_char (c : Char) (trail : Trail) :
    read kept g (.char c :: trail) = c :: read kept g trail := rfl

@[simp] theorem read_group (index : Nat) (trail : Trail) :
    read kept g (.group index :: trail) = (g.text index).trace kept ++ read kept g trail := rfl

@[simp] theorem read_append (trail trail' : Trail) :
    read kept g (trail ++ trail') = read kept g trail ++ read kept g trail' := List.flatMap_append

@[simp] theorem read_map_char (t : Text) : read kept g (t.map .char) = t := by
  rw [read, List.flatMap_map]
  exact List.flatMap_singleton' t

@[simp] theorem read_ofText (t : Text) : read kept g (ofText kept t) = t.trace kept := read_map_char _

/-- Notes that agree on the groups of a trail fill it in alike. -/
theorem read_congr {h : Notes} {trail : Trail}
    (hsame : ∀ i, .group i ∈ trail → (g.text i).trace kept = (h.text i).trace kept) :
    read kept g trail = read kept h trail := by
  induction trail with
  | nil => rfl
  | cons stop trail ih =>
    have hrest := ih fun i hi => hsame i (List.mem_cons_of_mem stop hi)
    cases stop with
    | char c => rw [read_char, read_char, hrest]
    | group i => rw [read_group, read_group, hrest, hsame i List.mem_cons_self]

end Trail

/-! ## The trail of a pattern -/

namespace Segment

variable {kept : Text} {segments : List Segment} {s : Text} {g : Notes}

/-- The trail of a segment. -/
def trail (kept : Text) : Segment → Trail
  | .text t => .ofText kept t
  | .filler _ => []
  | .group index p => if p.isFreeOf kept then [] else [.group index]

/-- Whether the fillers hold nothing that is followed. -/
def fillsFree (kept : Text) (segments : List Segment) : Bool :=
  segments.all fun
    | .filler p => p.isFreeOf kept
    | _ => true

/-- The groups that hold nothing that is followed. -/
def freeGroups (kept : Text) (segments : List Segment) : List Nat :=
  segments.filterMap fun
    | .group index p => if p.isFreeOf kept then some index else none
    | _ => none

theorem text_append_singleton {i : Nat} (hi : i ∉ g.map Prod.fst) (j : Nat) (u : Text) :
    Notes.text (g ++ [(i, u)]) j = if j = i then u else g.text j := by
  rw [Notes.text, List.lookup_append]
  by_cases hji : j = i
  · subst hji
    have hnone : g.lookup j = none := by
      rw [List.lookup_eq_none_iff]
      intro x hx
      rw [bne_iff_ne]
      rintro rfl
      exact hi (List.mem_map_of_mem hx)
    rw [hnone, if_pos rfl]
    simp
  · have hnone : List.lookup j [(i, u)] = none := by simp [List.lookup_cons, beq_eq_false_iff_ne.mpr hji]
    rw [hnone, if_neg hji, Option.or_none, Notes.text]

theorem group_mem_trail {i : Nat} (h : Stop.group i ∈ segments.flatMap (trail kept)) : i ∈ indices segments := by
  obtain ⟨segment, hmem, hstop⟩ := List.mem_flatMap.mp h
  cases segment with
  | text t => simp [trail, Trail.ofText] at hstop
  | filler p => simp [trail] at hstop
  | group index p =>
    rw [trail] at hstop
    split at hstop
    · cases hstop
    · obtain rfl : i = index := by simpa using hstop
      exact List.mem_filterMap.mpr ⟨_, hmem, rfl⟩

/-- What is followed in a reading is the trail of its segments, filled in. -/
theorem Spells.trace_eq (h : Spells segments s g) (hfill : fillsFree kept segments = true)
    (hnodup : (indices segments).Nodup) :
    s.trace kept = Trail.read kept g (segments.flatMap (trail kept)) := by
  induction h with
  | nil => rfl
  | text t _ ih =>
    rw [Text.trace_append, ih hfill hnodup, List.flatMap_cons, Trail.read_append, trail, Trail.read_ofText]
  | filler first _ ih =>
    obtain ⟨hfree, hrest⟩ : _ ∧ _ := Bool.and_eq_true_iff.mp hfill
    rw [Text.trace_append, ih hrest hnodup, Pattern.trace_eq_nil_of_isFreeOf hfree first]
    rfl
  | @group i p u first segments s g rest ih =>
    have hcons : indices (.group i p :: segments) = i :: indices segments := rfl
    rw [hcons, List.nodup_cons] at hnodup
    have hnew : i ∉ g.map Prod.fst := by
      rw [rest.map_fst, List.mem_reverse]
      exact hnodup.1
    -- the groups of the other segments have other numbers
    have hsame : Trail.read kept g (segments.flatMap (trail kept)) =
        Trail.read kept (g ++ [(i, u)]) (segments.flatMap (trail kept)) := by
      apply Trail.read_congr
      intro j hj
      have hji : j ≠ i := by
        rintro rfl
        exact hnodup.1 (group_mem_trail hj)
      rw [text_append_singleton hnew, if_neg hji]
    rw [Text.trace_append, ih hfill hnodup.2, hsame, List.flatMap_cons, Trail.read_append, trail]
    congr 1
    split
    · rename_i hfree
      exact Pattern.trace_eq_nil_of_isFreeOf hfree first
    · rw [Trail.read_group, Trail.read_nil, List.append_nil, text_append_singleton hnew, if_pos rfl]

/-- What is noted for a group was read by its pattern. -/
theorem Spells.fits_text (h : Spells segments s g) (hnodup : (indices segments).Nodup) {i : Nat} {p : Pattern}
    (hmem : .group i p ∈ segments) : p.Fits (g.text i) [] := by
  induction h with
  | nil => cases hmem
  | text t _ ih => exact ih hnodup (by simpa using hmem)
  | filler first _ ih => exact ih hnodup (by simpa using hmem)
  | @group j q u first segments s g rest ih =>
    have hcons : indices (.group j q :: segments) = j :: indices segments := rfl
    rw [hcons, List.nodup_cons] at hnodup
    have hnew : j ∉ g.map Prod.fst := by
      rw [rest.map_fst, List.mem_reverse]
      exact hnodup.1
    rw [text_append_singleton hnew]
    rcases List.mem_cons.mp hmem with heq | hrest
    · obtain ⟨rfl, rfl⟩ := Segment.group.inj heq
      rwa [if_pos rfl]
    · have hij : i ≠ j := by
        rintro rfl
        exact hnodup.1 (List.mem_filterMap.mpr ⟨.group i p, hrest, rfl⟩)
      rw [if_neg hij]
      exact ih hnodup.2 hrest

theorem Spells.trace_eq_nil (h : Spells segments s g) (hnodup : (indices segments).Nodup) :
    ∀ i ∈ freeGroups kept segments, (g.text i).trace kept = [] := by
  intro i hi
  obtain ⟨segment, hmem, hsegment⟩ := List.mem_filterMap.mp hi
  cases segment with
  | text t => cases hsegment
  | filler q => cases hsegment
  | group j p =>
    by_cases hfree : p.isFreeOf kept = true
    · obtain rfl : j = i := by simpa [hfree] using hsegment
      exact Pattern.trace_eq_nil_of_isFreeOf hfree (h.fits_text hnodup hmem)
    · simp [hfree] at hsegment

end Segment

/-! ## The trails of a rule -/

/-- The trail of a template, where some groups hold nothing that is followed. -/
def Template.trail (kept : Text) (free : List Nat) (tmpl : Template) : Trail :=
  tmpl.flatMap fun
    | .text t => Trail.ofText kept t
    | .group index => if free.elem index then [] else [.group index]

/-- What is followed in a template that is filled in is its trail, filled in. -/
theorem Template.trace_fill {kept : Text} {free : List Nat} {g : Notes} {m : Match}
    (hgroup : ∀ index, m.group (index + 1) = g.text (index + 1))
    (hfree : ∀ i ∈ free, (g.text i).trace kept = []) :
    ∀ tmpl : Template, 0 ∉ tmpl.uses →
      (tmpl.fill m).trace kept = Trail.read kept g (tmpl.trail kept free)
  | [], _ => rfl
  | .text t :: tmpl, hzero => by
    have hfill : fill (.text t :: tmpl) m = t ++ fill tmpl m := rfl
    have htrail : trail kept free (.text t :: tmpl) = Trail.ofText kept t ++ trail kept free tmpl := rfl
    rw [hfill, htrail, Text.trace_append, Trail.read_append, Trail.read_ofText,
      trace_fill hgroup hfree tmpl hzero]
  | .group index :: tmpl, hzero => by
    have hfill : fill (.group index :: tmpl) m = m.group index ++ fill tmpl m := rfl
    have htrail : trail kept free (.group index :: tmpl) =
        (if free.elem index then [] else [.group index]) ++ trail kept free tmpl := rfl
    rw [uses, List.mem_cons, not_or] at hzero
    obtain ⟨i, rfl⟩ := Nat.exists_eq_succ_of_ne_zero (Ne.symm hzero.1)
    rw [hfill, htrail, Text.trace_append, Trail.read_append, trace_fill hgroup hfree tmpl hzero.2,
      hgroup]
    congr 1
    split
    · rename_i hi
      exact hfree _ (List.elem_iff.mp hi)
    · rw [Trail.read_group, Trail.read_nil, List.append_nil]

namespace Rule

/-- What is followed in the matches of a rule makes one trail, and what is followed in what the rule writes
for them makes another. -/
def Trails (kept : Text) (r : Rule) (before after : Trail) : Prop :=
  ∃ segments, r.pattern.SpelledBy segments ∧ Segment.fillsFree kept segments = true ∧
    (Segment.indices segments).Nodup ∧ 0 ∉ r.template.uses ∧
    segments.flatMap (Segment.trail kept) = before ∧
    r.template.trail kept (Segment.freeGroups kept segments) = after

theorem Trails.trace_eq {kept : Text} {r : Rule} {before after : Trail} (hr : r.Trails kept before after)
    {k : Cursor} {m : Match} (hm : r.pattern.matchAt? k = some m) :
    ∃ g : Notes, (∀ index, m.group (index + 1) = g.text (index + 1)) ∧
      m.span.text.trace kept = Trail.read kept g before ∧
      (r.template.fill m).trace kept = Trail.read kept g after := by
  obtain ⟨segments, hspelled, hfill, hnodup, hzero, rfl, rfl⟩ := hr
  obtain ⟨-, -, g, hfits, hgroup⟩ := Pattern.fits_of_matchAt? hm
  have hspells := hspelled _ g hfits
  exact ⟨g, hgroup, hspells.trace_eq hfill hnodup,
    Template.trace_fill hgroup (hspells.trace_eq_nil hnodup) _ hzero⟩

end Rule

end GoDraft
