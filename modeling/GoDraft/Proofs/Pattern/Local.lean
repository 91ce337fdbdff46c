import GoDraft.Proofs.Pattern.Found
import Mathlib.Data.List.Forall2

/-!
# GoDraft — matches and what stands behind them

A pattern may try ways that lead far beyond the match it settles on, so a change of the text behind a
place can change the match at the place. The ways that end before the change stay the same, though, and
in the same order. So two searches find the same in a common part of two texts, as long as neither finds
a match that reaches the end of that part.

* `Pattern.filter_views_append` — the views that end inside a text do not hang on what follows it;
* `Match.Like` — two matches of the same text with the same groups, some bytes apart;
* `Pattern.findAllFrom_shift` — searches of one text that begin at different offsets;
* `Pattern.findAllFrom_common` — searches of two texts with a common part.
-/

namespace GoDraft

/-! ## Views that end inside a text -/

namespace View

/-- A view of a text that goes on. -/
def extend (r : Text) (v : View) : View := ⟨v.before, v.rest ++ r, v.notes⟩

/-- Whether a view leaves more than a number of characters. -/
def leaves (n : Nat) (v : View) : Bool := n < v.rest.length

variable {step step' : View → List View} {r : Text}

theorem leaves_extend (r : Text) (v : View) : (v.extend r).leaves r.length = v.leaves 0 := by
  simp [leaves, extend]

theorem passes_extend (r : Text) (u v : View) : (u.extend r).passes (v.extend r) = u.passes v := by
  simp [passes, extend]

theorem note_extend (u v : View) (r : Text) (index : Nat) :
    (u.extend r).note index (v.extend r) = (u.note index v).extend r := by
  have hread : (v.extend r).readTo (u.extend r) = v.readTo u := by
    rw [readTo, readTo, extend, extend, List.length_append, List.length_append,
      Nat.add_sub_add_right, List.take_append_of_le_length (Nat.sub_le _ _)]
  rw [note, hread]
  rfl

end View

namespace Pattern

/-- No view goes back. -/
theorem length_le_of_mem_views : ∀ (p : Pattern) (v : View), ∀ u ∈ p.views v,
    u.rest.length ≤ v.rest.length
  | .empty, v, u, hu => by
    rw [views, List.mem_singleton] at hu
    exact Nat.le_of_eq (congrArg (·.rest.length) hu)
  | .wordEdge, v, u, hu | .lineStart, v, u, hu => by
    rw [views] at hu
    split at hu
    · exact Nat.le_of_eq (congrArg (·.rest.length) (List.mem_singleton.mp hu))
    · exact absurd hu List.not_mem_nil
  | .one accepts, ⟨b, [], g⟩, u, hu => absurd hu List.not_mem_nil
  | .one accepts, ⟨b, c :: t, g⟩, u, hu => by
    rw [views_one_cons] at hu
    split at hu
    · rw [List.mem_singleton.mp hu]
      exact Nat.le_succ _
    · exact absurd hu List.not_mem_nil
  | .seq p q, v, u, hu => by
    rw [views, List.mem_flatMap] at hu
    obtain ⟨x, hx, hu⟩ := hu
    exact Nat.le_trans (length_le_of_mem_views q x u hu) (length_le_of_mem_views p v x hx)
  | .alt p q, v, u, hu => by
    rw [views, List.mem_append] at hu
    rcases hu with hu | hu
    · exact length_le_of_mem_views p v u hu
    · exact length_le_of_mem_views q v u hu
  | .many p, v, u, hu => by
    rw [views_many, List.mem_append, List.mem_flatMap] at hu
    rcases hu with ⟨x, hx, hu⟩ | hu
    · -- a round of a repetition that counts has taken something
      have hlt : x.rest.length < v.rest.length := by
        simpa [View.passes] using (List.mem_filter.mp hx).2
      exact Nat.le_trans (length_le_of_mem_views (.many p) x u hu) (Nat.le_of_lt hlt)
    · exact Nat.le_of_eq (congrArg (·.rest.length) (List.mem_singleton.mp hu))
  | .few p, v, u, hu => by
    rw [views_few, List.mem_cons, List.mem_flatMap] at hu
    rcases hu with hu | ⟨x, hx, hu⟩
    · exact Nat.le_of_eq (congrArg (·.rest.length) hu)
    · have hlt : x.rest.length < v.rest.length := by
        simpa [View.passes] using (List.mem_filter.mp hx).2
      exact Nat.le_trans (length_le_of_mem_views (.few p) x u hu) (Nat.le_of_lt hlt)
  | .group index p, v, u, hu => by
    rw [views, List.mem_map] at hu
    obtain ⟨x, hx, rfl⟩ := hu
    exact length_le_of_mem_views p v x hx
termination_by p v => (sizeOf p, v.rest.length)

/-- The views that end inside a text are those of the text alone. -/
def Local (p : Pattern) (r : Text) (v : View) : Prop :=
  (p.views (v.extend r)).filter (·.leaves r.length) =
    ((p.views v).filter (·.leaves 0)).map (·.extend r)

/-- Only views that end inside the text lead to such views. -/
theorem filter_flatMap_views (p : Pattern) (n : Nat) (l : List View) :
    (l.flatMap p.views).filter (·.leaves n) =
      (l.filter (·.leaves n)).flatMap fun u => (p.views u).filter (·.leaves n) := by
  induction l with
  | nil => rfl
  | cons u l ih =>
    rw [List.flatMap_cons, List.filter_append, ih, List.filter_cons]
    split
    · rw [List.flatMap_cons]
    · rename_i hu
      have hnone : (p.views u).filter (·.leaves n) = [] := by
        rw [List.filter_eq_nil_iff]
        intro x hx hleaves
        simp only [View.leaves, decide_eq_true_eq] at hu hleaves
        exact hu (Nat.lt_of_lt_of_le hleaves (p.length_le_of_mem_views u x hx))
      rw [hnone, List.nil_append]

/-- A second step from local views is local when it is local at each of them. -/
theorem filter_flatMap_of_local {q : Pattern} {r : Text} {l l' : List View}
    (hl : l'.filter (·.leaves r.length) = (l.filter (·.leaves 0)).map (·.extend r))
    (hq : ∀ u ∈ l, q.Local r u) :
    (l'.flatMap q.views).filter (·.leaves r.length) =
      ((l.flatMap q.views).filter (·.leaves 0)).map (·.extend r) := by
  rw [filter_flatMap_views, hl, filter_flatMap_views q 0, List.map_flatMap, List.flatMap_map]
  apply List.flatMap_congr
  intro u hu
  exact hq u (List.mem_filter.mp hu).1

theorem filter_singleton_extend (r : Text) (v : View) :
    [v.extend r].filter (·.leaves r.length) = ([v].filter (·.leaves 0)).map (·.extend r) := by
  rw [List.filter_singleton, List.filter_singleton, View.leaves_extend]
  cases v.leaves 0 <;> rfl

theorem filter_passes_of_local {r : Text} {v : View} {l l' : List View}
    (hl : l'.filter (·.leaves r.length) = (l.filter (·.leaves 0)).map (·.extend r)) :
    (l'.filter (·.passes (v.extend r))).filter (·.leaves r.length) =
      ((l.filter (·.passes v)).filter (·.leaves 0)).map (·.extend r) := by
  rw [List.filter_comm, hl, List.filter_map, List.filter_comm (p := fun u : View => u.leaves 0)]
  congr 1
  apply List.filter_congr
  intro u _
  exact View.passes_extend r u v

/-- What a pattern does before the end of a text does not hang on what follows the text. -/
theorem filter_views_append : ∀ (p : Pattern) (r : Text) (v : View), p.Local r v
  | .empty, r, v => filter_singleton_extend r v
  | .wordEdge, r, ⟨b, [], g⟩ | .lineStart, r, ⟨b, [], g⟩ => by
    rw [Local, views, views]
    split <;> split <;> simp [View.leaves, View.extend]
  | .wordEdge, r, ⟨b, c :: t, g⟩ => by
    have hedge : ((View.mk b (c :: t) g).extend r).isWordEdge = (View.mk b (c :: t) g).isWordEdge := rfl
    rw [Local, views, views, hedge]
    split
    · exact filter_singleton_extend r _
    · rfl
  | .lineStart, r, ⟨b, c :: t, g⟩ => by
    have hstart : ((View.mk b (c :: t) g).extend r).isLineStart = (View.mk b (c :: t) g).isLineStart := rfl
    rw [Local, views, views, hstart]
    split
    · exact filter_singleton_extend r _
    · rfl
  | .one accepts, r, ⟨b, [], g⟩ => by
    -- behind the text the view is too far on
    rw [Local, views_one_nil, List.filter_nil, List.map_nil, List.filter_eq_nil_iff]
    intro u hu
    have hlength := length_le_of_mem_views (.one accepts) _ u hu
    simpa [View.leaves, View.extend] using hlength
  | .one accepts, r, ⟨b, c :: t, g⟩ => by
    rw [Local, View.extend, List.cons_append, views_one_cons, views_one_cons]
    split
    · exact filter_singleton_extend r ⟨some c, t, g⟩
    · rfl
  | .seq p q, r, v =>
    filter_flatMap_of_local (filter_views_append p r v) fun u _ => filter_views_append q r u
  | .alt p q, r, v => by
    have hp := filter_views_append p r v
    have hq := filter_views_append q r v
    rw [Local] at hp hq ⊢
    rw [views, views, List.filter_append, List.filter_append, List.map_append, hp, hq]
  | .many p, r, v => by
    have hp := filter_views_append p r v
    rw [Local, views_many, views_many, List.filter_append, List.filter_append, List.map_append,
      filter_singleton_extend]
    congr 1
    apply filter_flatMap_of_local (filter_passes_of_local hp)
    intro u hu
    have hlt : u.rest.length < v.rest.length := by
      simpa [View.passes] using (List.mem_filter.mp hu).2
    exact filter_views_append (.many p) r u
  | .few p, r, v => by
    have hp := filter_views_append p r v
    rw [Local, views_few, views_few, ← List.singleton_append, ← List.singleton_append (x := v),
      List.filter_append, List.filter_append, List.map_append, filter_singleton_extend]
    congr 1
    apply filter_flatMap_of_local (filter_passes_of_local hp)
    intro u hu
    have hlt : u.rest.length < v.rest.length := by
      simpa [View.passes] using (List.mem_filter.mp hu).2
    exact filter_views_append (.few p) r u
  | .group index p, r, v => by
    have hp := filter_views_append p r v
    rw [Local] at hp ⊢
    have hnote : (fun u : View => (u.note index v).extend r) =
        (fun u => u.note index (v.extend r)) ∘ View.extend r :=
      funext fun u => (View.note_extend u v r index).symm
    have hkeep (n : Nat) (v : View) : (View.leaves n) ∘ (fun u : View => u.note index v) =
        View.leaves n := rfl
    rw [views, views, List.filter_map, List.filter_map, hkeep, hkeep, hp, List.map_map, List.map_map,
      ← hnote]
    rfl
termination_by p _ v => (sizeOf p, v.rest.length)

end Pattern

/-! ## Matches that read the same -/

/-- A match of the same text with the same groups, `d` bytes further on. -/
structure Match.Like (d : Nat) (m m' : Match) : Prop where
  start : m'.start = m.start + d
  length : m'.span.length = m.span.length
  group? : ∀ index, m'.group? (index + 1) = m.group? (index + 1)

theorem Match.Is.like {m m' : Match} {offset d : Nat} {s : Text} {g : Notes} (h : m.Is offset s g)
    (h' : m'.Is (offset + d) s g) : m.Like d m' where
  start := by rw [h.start, h'.start]
  length := by rw [h.length, h'.length]
  group? index := by rw [h.group?, h'.group?]

namespace Pattern

variable {p : Pattern} {b : Option Char} {offset n : Nat} {s t r r' : Text} {m : Match}

/-- A match tells the best view at its place. -/
theorem exists_first_of_matchAt? (h : p.matchAt? ⟨b, offset, t⟩ = some m) :
    ∃ u s, p.First ⟨b, t, []⟩ u ∧ t = s ++ u.rest ∧ m.Is offset s u.notes := by
  have hsome := h
  rw [matchAt?, Option.map_eq_some_iff] at hsome
  obtain ⟨w, hw, -⟩ := hsome
  obtain ⟨s, -, -, hrest, -⟩ := exists_fits p _ w (List.mem_of_head? hw)
  have hfirst : p.First ⟨b, t, []⟩ w.view := by
    rw [First, ← views_start p b offset, List.head?_map, hw]
    rfl
  have hrest : t = s ++ w.view.rest := hrest
  refine ⟨w.view, s, hfirst, hrest, ?_⟩
  rw [hrest] at hfirst
  obtain ⟨m', hm', his⟩ := matchAt?_of_views offset hfirst rfl
  rw [← hrest, h, Option.some.injEq] at hm'
  exact hm' ▸ his

/-- What stands in a text reads a part of it. -/
theorem StandsIn.exists_fits (h : p.StandsIn b offset t m) :
    ∃ u s rest g, t = u ++ (s ++ rest) ∧ s ≠ [] ∧ p.Fits s g ∧ m.start = offset + u.size ∧
      m.stop = offset + u.size + s.size := by
  obtain ⟨u, post, rfl, hm, hlength⟩ := h
  obtain ⟨v, s, -, hpost, his⟩ := exists_first_of_matchAt? hm
  obtain ⟨-, -, g, hfits, -⟩ := fits_of_matchAt? hm
  have hs : s ≠ [] := by
    rintro rfl
    rw [his.length] at hlength
    exact absurd hlength (Nat.lt_irrefl 0)
  exact ⟨u, s, v.rest, g, by rw [hpost], hs, his.text ▸ hfits, his.start, his.stop⟩

/-- Searches of one text from different offsets find the same. -/
theorem findAllFrom_shift (d : Nat) : ∀ (t : Text) (b : Option Char) (offset skip : Nat),
    List.Forall₂ (Match.Like d) (p.findAllFrom b offset skip t) (p.findAllFrom b (offset + d) skip t)
  | [], _, _, _ => .nil
  | c :: rest, b, offset, n + 1 => by
    rw [findAllFrom_skip, findAllFrom_skip, Nat.add_right_comm]
    exact findAllFrom_shift d rest _ _ n
  | c :: rest, b, offset, 0 => by
    have ih (n : Nat) := findAllFrom_shift d rest (some c) (offset + c.utf8Size) n
    cases hm : p.matchAt? ⟨b, offset, c :: rest⟩ with
    | none =>
      have hm' : p.matchAt? ⟨b, offset + d, c :: rest⟩ = none := by
        rw [matchAt?_eq_none_iff] at hm ⊢
        exact hm
      rw [findAllFrom_none hm, findAllFrom_none hm', Nat.add_right_comm]
      exact ih 0
    | some m =>
      obtain ⟨u, s, hfirst, hrest, his⟩ := exists_first_of_matchAt? hm
      rw [hrest] at hfirst
      obtain ⟨m', hm', his'⟩ := matchAt?_of_views (offset + d) hfirst rfl
      rw [← hrest] at hm'
      -- the match does not depend on the offset, so as much is skipped in both
      have hlike := his.like his'
      cases hn : m.span.length with
      | zero =>
        rw [findAllFrom_zero hm hn, findAllFrom_zero hm' (hlike.length.trans hn), Nat.add_right_comm]
        exact ih 0
      | succ n =>
        rw [findAllFrom_some hm hn, findAllFrom_some hm' (hlike.length.trans hn), Nat.add_right_comm]
        exact .cons hlike (ih n)

/-! ## Two texts with a common part -/

/-- A match that ends before a text does is a view that ends inside it. -/
theorem leaves_of_size_lt {u : View} (h : s ++ r = t ++ u.rest) (hlt : t.size < s.size) :
    u.leaves r.length = true ∧ t.length ≤ s.length := by
  rcases List.append_eq_append_iff.mp h with ⟨x, rfl, -⟩ | ⟨x, rfl, hrest⟩
  · rw [Text.size_append] at hlt
    omega
  · have hx : x ≠ [] := by
      rintro rfl
      rw [List.append_nil] at hlt
      omega
    have hpos := List.length_pos_iff.mpr hx
    simp [View.leaves, hrest]
    omega

theorem head?_filter_of_first {v u : View} {n : Nat} (h : p.First v u) (hu : u.leaves n = true) :
    ((p.views v).filter (·.leaves n)).head? = some u := by
  obtain ⟨others, hviews⟩ := List.head?_eq_some_iff.mp h
  rw [hviews, List.filter_cons_of_pos hu]
  rfl

/-- A match that ends inside a text comes from the first view inside it, whatever follows the text. -/
theorem exists_inside_of_matchAt? (hm : p.matchAt? ⟨b, offset, s ++ r⟩ = some m) (hstop : m.stop < offset + s.size) :
    ∃ v t, ((p.views ⟨b, s, []⟩).filter (·.leaves 0)).head? = some v ∧ s = t ++ v.rest ∧ m.Is offset t v.notes := by
  obtain ⟨u, t, hfirst, hrest, his⟩ := exists_first_of_matchAt? hm
  rw [his.stop] at hstop
  obtain ⟨hleaves, -⟩ := leaves_of_size_lt hrest (by omega)
  have hhead := head?_filter_of_first hfirst hleaves
  have hlocal : p.Local r ⟨b, s, []⟩ := filter_views_append p r _
  rw [Local] at hlocal
  rw [show View.mk b (s ++ r) [] = View.extend r ⟨b, s, []⟩ from rfl, hlocal, List.head?_map,
    Option.map_eq_some_iff] at hhead
  obtain ⟨v, hv, rfl⟩ := hhead
  refine ⟨v, t, hv, ?_, his⟩
  rw [View.extend, ← List.append_assoc] at hrest
  exact List.append_cancel_right hrest

/-- Where there is no match, no view ends inside the text either. -/
theorem filter_leaves_of_matchAt?_eq_none (hm : p.matchAt? ⟨b, offset, s ++ r⟩ = none) :
    (p.views ⟨b, s, []⟩).filter (·.leaves 0) = [] := by
  have hlocal : p.Local r ⟨b, s, []⟩ := filter_views_append p r _
  have hnil : p.views (View.extend r ⟨b, s, []⟩) = [] := matchAt?_eq_none_iff.mp hm
  rw [Local, hnil, List.filter_nil] at hlocal
  exact List.map_eq_nil_iff.mp hlocal.symm

/-- At a place of a common part both texts have the same match or none, if no match there reaches the
end of that part. -/
theorem matchAt?_common (h : ∀ m, p.matchAt? ⟨b, offset, s ++ r⟩ = some m → m.stop < offset + s.size)
    (h' : ∀ m, p.matchAt? ⟨b, offset, s ++ r'⟩ = some m → m.stop < offset + s.size) :
    (p.matchAt? ⟨b, offset, s ++ r⟩ = none ∧ p.matchAt? ⟨b, offset, s ++ r'⟩ = none) ∨
      ∃ m m', p.matchAt? ⟨b, offset, s ++ r⟩ = some m ∧ p.matchAt? ⟨b, offset, s ++ r'⟩ = some m' ∧
        m.Like 0 m' ∧ m.span.length ≤ s.length := by
  cases hm : p.matchAt? ⟨b, offset, s ++ r⟩ with
  | none =>
    refine .inl ⟨rfl, ?_⟩
    cases hm' : p.matchAt? ⟨b, offset, s ++ r'⟩ with
    | none => rfl
    | some m' =>
      obtain ⟨v, -, hv, -⟩ := exists_inside_of_matchAt? hm' (h' m' hm')
      rw [filter_leaves_of_matchAt?_eq_none hm] at hv
      cases hv
  | some m =>
    obtain ⟨v, t, hv, hsplit, his⟩ := exists_inside_of_matchAt? hm (h m hm)
    cases hm' : p.matchAt? ⟨b, offset, s ++ r'⟩ with
    | none =>
      rw [filter_leaves_of_matchAt?_eq_none hm'] at hv
      cases hv
    | some m' =>
      obtain ⟨v', t', hv', hsplit', his'⟩ := exists_inside_of_matchAt? hm' (h' m' hm')
      obtain rfl : v = v' := Option.some.inj (hv.symm.trans hv')
      obtain rfl : t = t' := List.append_cancel_right (hsplit.symm.trans hsplit')
      refine .inr ⟨m, m', rfl, rfl, his.like his', ?_⟩
      rw [his.length, hsplit, List.length_append]
      omega

/-- Where all matches that are listed and begin in a text end in it, so does a match at its first character. -/
theorem stop_lt_of_matchAt? {c : Char} (h : ∀ m ∈ p.findAllFrom b offset 0 (c :: t),
      m.start < offset + c.utf8Size + n → m.stop < offset + c.utf8Size + n)
    (hm : p.matchAt? ⟨b, offset, c :: t⟩ = some m) :
    m.start < offset + c.utf8Size + n ∧ m.stop < offset + c.utf8Size + n := by
  have hc := c.utf8Size_pos
  obtain ⟨u, s, -, -, his⟩ := exists_first_of_matchAt? hm
  have hstart : m.start < offset + c.utf8Size + n := by
    rw [his.start]
    omega
  refine ⟨hstart, ?_⟩
  cases hn : m.span.length with
  | zero =>
    -- an empty match is not listed, and it ends where it begins
    obtain rfl : s = [] := List.length_eq_zero_iff.mp (his.length.symm.trans hn)
    rw [his.stop, Text.size_nil]
    omega
  | succ n =>
    apply h m _ hstart
    rw [findAllFrom_some hm hn]
    exact List.mem_cons_self

/-- Searches of two texts with a common part find the same in it, if neither finds a match that begins
there and reaches its end. -/
theorem findAllFrom_common : ∀ {s : Text} {b : Option Char} {offset skip : Nat}, skip ≤ s.length →
    (∀ m ∈ p.findAllFrom b offset skip (s ++ r), m.start < offset + s.size → m.stop < offset + s.size) →
    (∀ m ∈ p.findAllFrom b offset skip (s ++ r'), m.start < offset + s.size → m.stop < offset + s.size) →
    ∃ ms ms', p.findAllFrom b offset skip (s ++ r) =
        ms ++ p.findAllFrom (lastOf b s) (offset + s.size) 0 r ∧
      p.findAllFrom b offset skip (s ++ r') =
        ms' ++ p.findAllFrom (lastOf b s) (offset + s.size) 0 r' ∧
      List.Forall₂ (Match.Like 0) ms ms' ∧ ∀ m ∈ ms, m.start < offset + s.size
  | [], b, offset, skip, hskip, _, _ => by
    obtain rfl : skip = 0 := Nat.le_zero.mp hskip
    exact ⟨[], [], by simp, by simp, .nil, fun _ hm => absurd hm List.not_mem_nil⟩
  | c :: s, b, offset, skip, hskip, h, h' => by
    have hsize : offset + Text.size (c :: s) = offset + c.utf8Size + Text.size s := by
      rw [Text.size_cons, Nat.add_assoc]
    rw [hsize] at h h' ⊢
    rw [lastOf_cons]
    rw [List.cons_append] at h h' ⊢
    rw [List.cons_append]
    cases skip with
    | succ n =>
      -- inside a match that was found before, nothing is looked for
      rw [findAllFrom_skip] at h h'
      rw [findAllFrom_skip, findAllFrom_skip]
      exact findAllFrom_common (Nat.le_of_succ_le_succ hskip) h h'
    | zero =>
      -- both texts have a match of the same length here, or none
      rcases matchAt?_common (s := c :: s) (fun m hm => hsize ▸ (stop_lt_of_matchAt? h hm).2)
        (fun m hm => hsize ▸ (stop_lt_of_matchAt? h' hm).2) with ⟨hm, hm'⟩ | ⟨m, m', hm, hm', hlike, hlength⟩
      · rw [List.cons_append] at hm hm'
        rw [findAllFrom_none hm] at h
        rw [findAllFrom_none hm'] at h'
        rw [findAllFrom_none hm, findAllFrom_none hm']
        exact findAllFrom_common (Nat.zero_le _) h h'
      · rw [List.cons_append] at hm hm'
        cases hn : m.span.length with
        | zero =>
          have hn' := hlike.length.trans hn
          rw [findAllFrom_zero hm hn] at h
          rw [findAllFrom_zero hm' hn'] at h'
          rw [findAllFrom_zero hm hn, findAllFrom_zero hm' hn']
          exact findAllFrom_common (Nat.zero_le _) h h'
        | succ n =>
          have hn' := hlike.length.trans hn
          have hstart := (stop_lt_of_matchAt? h hm).1
          rw [findAllFrom_some hm hn] at h
          rw [findAllFrom_some hm' hn'] at h'
          have hskip : n ≤ s.length := by
            rw [hn, List.length_cons] at hlength
            omega
          obtain ⟨ms, ms', hms, hms', hlikes, hstarts⟩ := findAllFrom_common hskip
            (fun x hx => h x (List.mem_cons_of_mem m hx)) (fun x hx => h' x (List.mem_cons_of_mem m' hx))
          refine ⟨m :: ms, m' :: ms', ?_, ?_, .cons hlike hlikes, ?_⟩
          · rw [findAllFrom_some hm hn, hms, List.cons_append]
          · rw [findAllFrom_some hm' hn', hms', List.cons_append]
          · rw [List.forall_mem_cons]
            exact ⟨hstart, hstarts⟩

end Pattern

end GoDraft
