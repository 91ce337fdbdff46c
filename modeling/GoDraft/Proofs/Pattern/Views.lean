import GoDraft.Proofs.Pattern.Fits
import Mathlib.Data.List.Basic

/-!
# GoDraft — what a pattern sees

The ways of a pattern carry byte offsets and places. What they find depends on less: the character
before the place, the text behind it and the texts of the groups. `View` is that much of a way, and
`Pattern.views` goes through views as `Pattern.ways` goes through ways, in the same order.

* `Pattern.map_view_ways` — the views of a pattern are those of its ways;
* `Pattern.views_many`, `Pattern.views_few` — repetition, one round at a time;
* `Pattern.matchAt?_eq_none_iff`, `Pattern.matchAt?_of_views` — matches, by views.
-/

namespace GoDraft

/-! ## Sizes -/

namespace Text

@[simp] theorem size_nil : size [] = 0 := rfl

@[simp] theorem size_cons (c : Char) (t : Text) : size (c :: t) = c.utf8Size + t.size := rfl

@[simp] theorem size_append (s t : Text) : size (s ++ t) = s.size + t.size := by
  induction s with
  | nil => simp
  | cons c s ih =>
    rw [List.cons_append, size_cons, size_cons, ih]
    omega

theorem size_eq_zero_iff {t : Text} : t.size = 0 ↔ t = [] := by
  cases t with
  | nil => simp
  | cons c t =>
    have hc := c.utf8Size_pos
    simp only [size_cons, List.cons_ne_nil, iff_false]
    omega

end Text

/-! ## Views -/

/-- The last character of a text that follows `before`. -/
def lastOf (before : Option Char) (t : Text) : Option Char := t.getLast?.or before

@[simp] theorem lastOf_nil (before : Option Char) : lastOf before [] = before := by
  simp [lastOf]

@[simp] theorem lastOf_cons (before : Option Char) (c : Char) (t : Text) :
    lastOf before (c :: t) = lastOf (some c) t := by
  cases t with
  | nil => rfl
  | cons d t => simp [lastOf, List.getLast?_eq_some_getLast]

@[simp] theorem lastOf_append (before : Option Char) (s t : Text) :
    lastOf before (s ++ t) = lastOf (lastOf before s) t := by
  induction s generalizing before with
  | nil => rw [List.nil_append, lastOf_nil]
  | cons c s ih => rw [List.cons_append, lastOf_cons, lastOf_cons, ih]

theorem lastOf_mem (before : Option Char) {t : Text} (h : t ≠ []) :
    ∃ c ∈ t, lastOf before t = some c :=
  ⟨t.getLast h, List.getLast_mem h, by simp [lastOf, List.getLast?_eq_some_getLast h]⟩

/-- What of a way decides how it goes on, and what it has noted. -/
structure View where
  before : Option Char
  rest : Text
  notes : Notes

namespace View

/-- The view behind `s`, which `rest` follows. -/
def past (v : View) (s rest : Text) : View := ⟨lastOf v.before s, rest, v.notes⟩

/-- The text read from one view to another. -/
def readTo (v u : View) : Text := v.rest.take (v.rest.length - u.rest.length)

/-- A view with the text read since `start` noted under a number. -/
def note (u : View) (index : Nat) (start : View) : View :=
  { u with notes := (index, start.readTo u) :: u.notes }

/-- Whether a view has gone beyond another. -/
def passes (u : View) (earlier : View) : Bool := u.rest.length < earlier.rest.length

/-- Rounds of `step`, more before fewer. -/
def most (step : View → List View) : Text → View → List View
  | [], v => [v]
  | _ :: bound, v => ((step v).filter (·.passes v)).flatMap (most step bound) ++ [v]

/-- Rounds of `step`, fewer before more. -/
def fewest (step : View → List View) : Text → View → List View
  | [], v => [v]
  | _ :: bound, v => v :: ((step v).filter (·.passes v)).flatMap (fewest step bound)

/-- Whether exactly one side of the place is part of a word. -/
def isWordEdge (v : View) : Bool := v.before.any isWordChar != v.rest.head?.any isWordChar

/-- Whether a line begins at the place. -/
def isLineStart (v : View) : Bool := v.before.all (· == '\n')

end View

/-- The views to go on from a view by a pattern, best first. -/
def Pattern.views : Pattern → View → List View
  | .empty, v => [v]
  | .one accepts, v =>
    match v.rest with
    | [] => []
    | c :: rest => if accepts c then [v.past [c] rest] else []
  | .wordEdge, v => if v.isWordEdge then [v] else []
  | .lineStart, v => if v.isLineStart then [v] else []
  | .seq p q, v => (p.views v).flatMap q.views
  | .alt p q, v => p.views v ++ q.views v
  | .many p, v => v.most p.views v.rest
  | .few p, v => v.fewest p.views v.rest
  | .group index p, v => (p.views v).map fun u => u.note index v

namespace Way

/-- The view of a way. -/
def view (w : Way) : View := ⟨w.cursor.before, w.cursor.rest, w.notes⟩

end Way

/-! ## Ways and their views -/

namespace Way

/-- The offset of a way and the bytes left add up to the same wherever it goes. -/
def Level (w v : Way) : Prop :=
  w.cursor.offset + w.cursor.rest.size = v.cursor.offset + v.cursor.rest.size

end Way

namespace Pattern

theorem level_of_mem_ways : ∀ (p : Pattern) (w : Way), ∀ v ∈ p.ways w, w.Level v
  | .empty, w, v, hv => by
    rw [ways, List.mem_singleton] at hv
    rw [hv, Way.Level]
  | .wordEdge, w, v, hv | .lineStart, w, v, hv => by
    rw [ways] at hv
    split at hv
    · rw [List.mem_singleton.mp hv, Way.Level]
    · simp at hv
  | .one accepts, w, v, hv => by
    rw [ways] at hv
    split at hv
    · simp at hv
    · rename_i c rest hrest
      split at hv
      · rw [List.mem_singleton.mp hv, Way.Level, hrest, Cursor.past, Text.size_cons]
        dsimp only
        omega
      · simp at hv
  | .seq p q, w, v, hv => by
    rw [ways, List.mem_flatMap] at hv
    obtain ⟨u, hu, hv⟩ := hv
    exact (level_of_mem_ways p w u hu).trans (level_of_mem_ways q u v hv)
  | .alt p q, w, v, hv => by
    rw [ways, List.mem_append] at hv
    rcases hv with hv | hv
    · exact level_of_mem_ways p w v hv
    · exact level_of_mem_ways q w v hv
  | .many p, w, v, hv =>
    Way.rounds_induct (P := Way.Level) (fun _ => rfl)
      (fun w u _ hu => (level_of_mem_ways p w u hu).trans) _ w v hv
  | .few p, w, v, hv =>
    Way.rounds_induct (P := Way.Level) (fun _ => rfl)
      (fun w u _ hu => (level_of_mem_ways p w u hu).trans) _ w v (Way.mem_fewest_iff.mp hv)
  | .group index p, w, v, hv => by
    rw [ways, List.mem_map] at hv
    obtain ⟨u, hu, rfl⟩ := hv
    exact level_of_mem_ways p w u hu

/-- A way has gone beyond another exactly when its view has. -/
theorem passes_iff_of_mem_ways {p : Pattern} {w v : Way} (hv : v ∈ p.ways w) :
    v.passes w = v.view.passes w.view := by
  obtain ⟨s, -, -, hrest, -⟩ := exists_fits p w v hv
  have hlevel : w.cursor.offset + w.cursor.rest.size = v.cursor.offset + v.cursor.rest.size :=
    level_of_mem_ways p w v hv
  rw [hrest, Text.size_append] at hlevel
  have hsize := Text.size_eq_zero_iff (t := s)
  have hlength := List.length_eq_zero_iff (l := s)
  have hview : v.view.passes w.view = decide (0 < s.length) := by
    simp [View.passes, Way.view, hrest]
  rw [hview, Way.passes, decide_eq_decide]
  constructor
  · intro h
    have : ¬ s.size = 0 := by omega
    have : ¬ s.length = 0 := fun h' => this (hsize.mpr (hlength.mp h'))
    omega
  · intro h
    have : ¬ s.size = 0 := fun h' => by
      have := hlength.mpr (hsize.mp h')
      omega
    omega

end Pattern

namespace Way

variable {step : Way → List Way} {vstep : View → List View}

/-- A step on ways and a step on views go the same way, and agree on what has gone on. -/
def Agree (step : Way → List Way) (vstep : View → List View) : Prop :=
  ∀ w, (step w).map view = vstep w.view ∧ ∀ v ∈ step w, v.passes w = v.view.passes w.view

theorem Agree.map_view_filter (h : Agree step vstep) (w : Way) :
    ((step w).filter (·.passes w)).map view = (vstep w.view).filter (·.passes w.view) := by
  rw [← (h w).1, List.filter_map]
  congr 1
  exact List.filter_congr (h w).2

theorem map_view_most (h : Agree step vstep) :
    ∀ (bound : Text) (w : Way), (w.most step bound).map view = w.view.most vstep bound
  | [], _ => rfl
  | _ :: bound, w => by
    have ih := map_view_most h bound
    rw [most, View.most, List.map_append, List.map_flatMap, ← h.map_view_filter, List.flatMap_map]
    congr 2
    exact funext ih

theorem map_view_fewest (h : Agree step vstep) :
    ∀ (bound : Text) (w : Way), (w.fewest step bound).map view = w.view.fewest vstep bound
  | [], _ => rfl
  | _ :: bound, w => by
    have ih := map_view_fewest h bound
    rw [fewest, View.fewest, List.map_cons, List.map_flatMap, ← h.map_view_filter, List.flatMap_map]
    congr 2
    exact funext ih

end Way

namespace Pattern

/-- The views of a pattern are those of its ways, in the same order. -/
theorem map_view_ways : ∀ (p : Pattern) (w : Way), (p.ways w).map Way.view = p.views w.view
  | .empty, w => rfl
  | .wordEdge, w => by
    rw [ways, views, show w.cursor.isWordEdge = w.view.isWordEdge from rfl]
    split <;> rfl
  | .lineStart, w => by
    rw [ways, views, show w.cursor.isLineStart = w.view.isLineStart from rfl]
    split <;> rfl
  | .one accepts, w => by
    have hview : w.view.rest = w.cursor.rest := rfl
    rw [ways, views, hview]
    cases w.cursor.rest with
    | nil => rfl
    | cons c rest =>
      dsimp only
      split <;> rfl
  | .seq p q, w => by
    rw [ways, views, List.map_flatMap, ← map_view_ways p w, List.flatMap_map]
    congr 1
    exact funext (map_view_ways q)
  | .alt p q, w => by
    rw [ways, views, List.map_append, map_view_ways p, map_view_ways q]
  | .many p, w =>
    Way.map_view_most (fun w => ⟨map_view_ways p w, fun _ => passes_iff_of_mem_ways⟩) _ w
  | .few p, w =>
    Way.map_view_fewest (fun w => ⟨map_view_ways p w, fun _ => passes_iff_of_mem_ways⟩) _ w
  | .group index p, w => by
    rw [ways, views, List.map_map, ← map_view_ways p w, List.map_map]
    rfl

end Pattern

/-! ## Repetition, one round at a time -/

namespace View

variable {step : View → List View}

theorem mem_fewest_iff : ∀ {bound : Text} {v u : View}, u ∈ v.fewest step bound ↔ u ∈ v.most step bound
  | [], _, _ => Iff.rfl
  | _ :: _, v, u => by
    rw [fewest, most, List.mem_cons, List.mem_append, List.mem_singleton, or_comm]
    simp only [List.mem_flatMap, mem_fewest_iff]

theorem filter_passes_of_rest_nil {v : View} (h : v.rest = []) (l : List View) :
    l.filter (·.passes v) = [] := by
  rw [List.filter_eq_nil_iff]
  intro u _
  simp [passes, h]

/-- More rounds than characters are left make no difference. -/
theorem most_bound (bound bound' : Text) (v : View) (h : v.rest.length ≤ bound.length)
    (h' : v.rest.length ≤ bound'.length) : v.most step bound = v.most step bound' := by
  induction bound generalizing bound' v with
  | nil =>
    have hrest : v.rest = [] := List.length_eq_zero_iff.mp (Nat.le_zero.mp h)
    cases bound' with
    | nil => rfl
    | cons _ bound' =>
      rw [most, most, filter_passes_of_rest_nil hrest, List.flatMap_nil, List.nil_append]
  | cons _ bound ih =>
    cases bound' with
    | nil =>
      have hrest : v.rest = [] := List.length_eq_zero_iff.mp (Nat.le_zero.mp h')
      rw [most, most, filter_passes_of_rest_nil hrest, List.flatMap_nil, List.nil_append]
    | cons _ bound' =>
      rw [most, most]
      congr 1
      apply List.flatMap_congr
      intro u hu
      have hpass := (List.mem_filter.mp hu).2
      rw [passes, decide_eq_true_eq] at hpass
      rw [List.length_cons] at h h'
      exact ih bound' u (by omega) (by omega)

theorem fewest_bound (bound bound' : Text) (v : View) (h : v.rest.length ≤ bound.length)
    (h' : v.rest.length ≤ bound'.length) : v.fewest step bound = v.fewest step bound' := by
  induction bound generalizing bound' v with
  | nil =>
    have hrest : v.rest = [] := List.length_eq_zero_iff.mp (Nat.le_zero.mp h)
    cases bound' with
    | nil => rfl
    | cons _ bound' => rw [fewest, fewest, filter_passes_of_rest_nil hrest, List.flatMap_nil]
  | cons _ bound ih =>
    cases bound' with
    | nil =>
      have hrest : v.rest = [] := List.length_eq_zero_iff.mp (Nat.le_zero.mp h')
      rw [fewest, fewest, filter_passes_of_rest_nil hrest, List.flatMap_nil]
    | cons _ bound' =>
      rw [fewest, fewest]
      congr 1
      apply List.flatMap_congr
      intro u hu
      have hpass := (List.mem_filter.mp hu).2
      rw [passes, decide_eq_true_eq] at hpass
      rw [List.length_cons] at h h'
      exact ih bound' u (by omega) (by omega)

end View

namespace Pattern

theorem views_many (p : Pattern) (v : View) :
    (many p).views v = ((p.views v).filter (·.passes v)).flatMap (many p).views ++ [v] := by
  rw [views]
  cases hrest : v.rest with
  | nil => rw [View.most, View.filter_passes_of_rest_nil hrest, List.flatMap_nil, List.nil_append]
  | cons c rest =>
    rw [View.most]
    congr 1
    apply List.flatMap_congr
    intro u hu
    have hpass := (List.mem_filter.mp hu).2
    rw [View.passes, decide_eq_true_eq, hrest, List.length_cons] at hpass
    exact View.most_bound rest u.rest u (by omega) (Nat.le_refl _)

theorem views_few (p : Pattern) (v : View) :
    (few p).views v = v :: ((p.views v).filter (·.passes v)).flatMap (few p).views := by
  rw [views]
  cases hrest : v.rest with
  | nil => rw [View.fewest, View.filter_passes_of_rest_nil hrest, List.flatMap_nil]
  | cons c rest =>
    rw [View.fewest]
    congr 1
    apply List.flatMap_congr
    intro u hu
    have hpass := (List.mem_filter.mp hu).2
    rw [View.passes, decide_eq_true_eq, hrest, List.length_cons] at hpass
    exact View.fewest_bound rest u.rest u (by omega) (Nat.le_refl _)

end Pattern

/-! ## Matches -/

/-- A match at an offset that has read a text and noted its groups. -/
structure Match.Is (m : Match) (offset : Nat) (s : Text) (g : Notes) : Prop where
  start : m.start = offset
  stop : m.stop = offset + s.size
  text : m.span.text = s
  length : m.span.length = s.length
  group? : ∀ index, m.group? (index + 1) = g.lookup (index + 1)

theorem Match.Is.group {m : Match} {offset : Nat} {s : Text} {g : Notes} (h : m.Is offset s g)
    (index : Nat) : m.group (index + 1) = g.text (index + 1) := by
  rw [Match.group, h.group?, Notes.text]

theorem Match.Is.group_zero {m : Match} {offset : Nat} {s : Text} {g : Notes} (h : m.Is offset s g) :
    m.group 0 = s :=
  h.text

namespace Pattern

variable {p : Pattern} {before : Option Char} {offset : Nat} {s r t : Text}

theorem views_start (p : Pattern) (before : Option Char) (offset : Nat) (t : Text) :
    (p.ways ⟨⟨before, offset, t⟩, []⟩).map Way.view = p.views ⟨before, t, []⟩ :=
  p.map_view_ways _

/-- A view is reached by a reading. -/
theorem exists_fits_of_mem_views {u : View} (h : u ∈ p.views ⟨before, t, []⟩) : ∃ s g, p.Fits s g ∧ t = s ++ u.rest := by
  rw [← views_start p before 0, List.mem_map] at h
  obtain ⟨w, hw, rfl⟩ := h
  obtain ⟨s, g, hfits, hrest, -⟩ := exists_fits p _ w hw
  exact ⟨s, g, hfits, hrest⟩

theorem matchAt?_eq_none_iff :
    p.matchAt? ⟨before, offset, t⟩ = none ↔ p.views ⟨before, t, []⟩ = [] := by
  rw [matchAt?, Option.map_eq_none_iff, List.head?_eq_none_iff, ← views_start p before offset,
    List.map_eq_nil_iff]

/-- The best view at a place tells what the match there has read and noted. -/
theorem matchAt?_of_views {u : View} (offset : Nat) (h : (p.views ⟨before, s ++ r, []⟩).head? = some u)
    (hu : u.rest = r) : ∃ m, p.matchAt? ⟨before, offset, s ++ r⟩ = some m ∧ m.Is offset s u.notes := by
  rw [← views_start p before offset, List.head?_map, Option.map_eq_some_iff] at h
  obtain ⟨w, hw, rfl⟩ := h
  have hrest : w.cursor.rest = r := hu
  have htext : (Span.mk ⟨before, offset, s ++ r⟩ w.cursor).text = s := by
    apply Span.text_of_rest
    rw [hrest]
  have hlevel : offset + (s ++ r).size = w.cursor.offset + w.cursor.rest.size :=
    level_of_mem_ways p _ w (List.mem_of_head? hw)
  refine ⟨⟨⟨⟨before, offset, s ++ r⟩, w.cursor⟩, w.groups⟩, ?_, rfl, ?_, htext, ?_, fun index => ?_⟩
  · rw [matchAt?, hw]
    rfl
  · rw [hrest, Text.size_append] at hlevel
    show w.cursor.offset = offset + s.size
    omega
  · simp [Span.length, hrest]
  · rw [show w.view.notes = w.notes from rfl, Way.notes, lookup_map_snd]
    rfl

end Pattern

end GoDraft
