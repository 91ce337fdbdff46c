import GoDraft.Java.Fields
import GoDraft.Proofs.Pattern.Parts
import GoDraft.Proofs.Pattern.Views

/-!
# GoDraft — cutting at byte offsets

The places between the characters of a text are its byte boundaries, and a cut at two of them gives the
text in between.

* `Text.exists_of_isBoundary` — a boundary is the size of a front part of the text;
* `Text.slice_append` — the part between two boundaries;
* `Text.exists_slice_iff` — the cuts that are no faults;
* `lookback`, `followsStatic_append` — where the word `static` is looked for before a place;
* `hasPart_lookback_append` — behind a line without that word, only what follows the line counts.
-/

namespace GoDraft

namespace Text

variable {u v w t : Text} {n : Nat}

/-! ## Boundaries -/

theorem dropBytes?_cons {c : Char} (hn : n ≠ 0) (t : Text) :
    dropBytes? n (c :: t) = if c.utf8Size ≤ n then dropBytes? (n - c.utf8Size) t else none := by
  cases n with
  | zero => exact absurd rfl hn
  | succ n => rfl

theorem takeBytes?_cons {c : Char} (hn : n ≠ 0) (t : Text) :
    takeBytes? n (c :: t) =
      if c.utf8Size ≤ n then (takeBytes? (n - c.utf8Size) t).map (c :: ·) else none := by
  cases n with
  | zero => exact absurd rfl hn
  | succ n => rfl

/-- Dropping more than a front part drops that part first. -/
theorem dropBytes?_append_right (u t : Text) (n : Nat) :
    dropBytes? (u.size + n) (u ++ t) = dropBytes? n t := by
  induction u with
  | nil => rw [size_nil, Nat.zero_add, List.nil_append]
  | cons c u ih =>
    have hc := c.utf8Size_pos
    rw [List.cons_append, size_cons, dropBytes?_cons (by omega), if_pos (by omega), ← ih]
    congr 1
    omega

theorem dropBytes?_append (u t : Text) : dropBytes? u.size (u ++ t) = some t := by
  rw [← Nat.add_zero u.size, dropBytes?_append_right, dropBytes?]

theorem takeBytes?_append (u t : Text) : takeBytes? u.size (u ++ t) = some u := by
  induction u with
  | nil => rw [size_nil, takeBytes?]
  | cons c u ih =>
    have hc := c.utf8Size_pos
    rw [List.cons_append, size_cons, takeBytes?_cons (by omega), if_pos (by omega),
      Nat.add_sub_cancel_left, ih]
    rfl

/-- A boundary is the size of a front part of the text. -/
theorem exists_of_isBoundary : ∀ {t : Text} {n : Nat}, t.isBoundary n = true →
    ∃ u v, t = u ++ v ∧ u.size = n
  | t, 0, _ => ⟨[], t, rfl, rfl⟩
  | [], n + 1, h => absurd h Bool.false_ne_true
  | c :: t, n + 1, h => by
    rw [isBoundary, dropBytes?] at h
    split at h
    · rename_i hle
      obtain ⟨u, v, rfl, hsize⟩ := exists_of_isBoundary (t := t) h
      exact ⟨c :: u, v, rfl, by rw [size_cons]; omega⟩
    · exact absurd h Bool.false_ne_true

theorem isBoundary_zero (t : Text) : t.isBoundary 0 = true := by
  rw [isBoundary, dropBytes?]
  rfl

theorem isBoundary_append_right (u t : Text) (n : Nat) :
    isBoundary (u ++ t) (u.size + n) = isBoundary t n := by
  rw [isBoundary, dropBytes?_append_right, isBoundary]

theorem isBoundary_size (u t : Text) : isBoundary (u ++ t) u.size = true := by
  rw [isBoundary, dropBytes?_append]
  rfl

theorem isBoundary_append_left : ∀ (u t : Text) {n : Nat}, n ≤ u.size →
    isBoundary (u ++ t) n = isBoundary u n
  | u, t, 0, _ => by rw [isBoundary_zero, isBoundary_zero]
  | [], t, n + 1, h => absurd h (by simp)
  | c :: u, t, n + 1, h => by
    rw [isBoundary, isBoundary, List.cons_append, dropBytes?, dropBytes?]
    split
    · rename_i hle
      rw [size_cons] at h
      exact isBoundary_append_left u t (n := n + 1 - c.utf8Size) (by omega)
    · rfl

theorem slice_append (u v w : Text) : slice (u ++ (v ++ w)) u.size (u.size + v.size) = .ok v := by
  rw [slice, slice?, if_pos (Nat.le_add_right _ _), dropBytes?_append, Option.bind_some,
    Nat.add_sub_cancel_left, takeBytes?_append]

theorem hasPart_iff : ∀ {t part : Text}, t.hasPart part = true ↔ part <:+: t
  | [], part => by rw [hasPart, List.isEmpty_iff, List.infix_nil]
  | c :: t, part => by
    rw [hasPart, Bool.or_eq_true, List.isPrefixOf_iff_prefix, hasPart_iff, List.infix_cons_iff]

/-- Of two front parts of a text, the one of fewer bytes is a front part of the other. -/
theorem exists_of_size_le {u' v' : Text} (h : u ++ v = u' ++ v') (hle : u'.size ≤ u.size) :
    ∃ w, v' = w ++ v := by
  rcases List.append_eq_append_iff.mp h with ⟨w, rfl, rfl⟩ | ⟨w, -, rfl⟩
  · rw [size_append] at hle
    obtain rfl : w = [] := size_eq_zero_iff.mp (by omega)
    exact ⟨[], rfl⟩
  · exact ⟨w, rfl⟩

/-- Front parts of a text of the same size are the same. -/
theorem append_inj_of_size_eq {u' v' : Text} (h : u ++ v = u' ++ v') (hsize : u.size = u'.size) :
    u = u' ∧ v = v' := by
  obtain ⟨w, rfl⟩ := exists_of_size_le h (Nat.le_of_eq hsize.symm)
  rw [← List.append_assoc] at h
  obtain rfl := List.append_cancel_right h
  rw [size_append] at hsize
  obtain rfl : w = [] := size_eq_zero_iff.mp (by omega)
  exact ⟨List.append_nil u', rfl⟩

/-! ## Cuts -/

theorem slice_front (u t : Text) : slice (u ++ t) 0 u.size = .ok u := by
  have hslice := slice_append [] u t
  rwa [size_nil, Nat.zero_add, List.nil_append] at hslice

theorem slice_behind (u t : Text) : slice (u ++ t) u.size (u ++ t).size = .ok t := by
  have hslice := slice_append u t []
  rwa [List.append_nil, ← size_append] at hslice

theorem exists_of_takeBytes? : ∀ {t part : Text} {n : Nat}, t.takeBytes? n = some part →
    ∃ w, t = part ++ w ∧ part.size = n
  | t, part, 0, h => by
    rw [takeBytes?] at h
    obtain rfl := Option.some.inj h
    exact ⟨t, rfl, rfl⟩
  | [], part, n + 1, h => by cases h
  | c :: t, part, n + 1, h => by
    rw [takeBytes?] at h
    split at h
    · rename_i hle
      obtain ⟨part', hpart', rfl⟩ := Option.map_eq_some_iff.mp h
      obtain ⟨w, rfl, hsize⟩ := exists_of_takeBytes? hpart'
      exact ⟨w, rfl, by rw [size_cons]; omega⟩
    · cases h

/-- A cut that is no fault gives a part of the text. -/
theorem exists_of_slice {t part : Text} {start stop : Nat} (h : t.slice start stop = .ok part) :
    ∃ u w, t = u ++ (part ++ w) ∧ start = u.size ∧ stop = u.size + part.size := by
  rw [slice, slice?] at h
  split at h
  · rename_i part' hpart
    obtain rfl := Except.ok.inj h
    split at hpart
    · rename_i hle
      obtain ⟨rest, hdrop, htake⟩ := Option.bind_eq_some_iff.mp hpart
      obtain ⟨u, v, rfl, rfl⟩ := exists_of_isBoundary (t := t) (n := start) (by rw [isBoundary, hdrop]; rfl)
      obtain rfl := Option.some.inj ((dropBytes?_append u v).symm.trans hdrop)
      obtain ⟨w, rfl, hsize⟩ := exists_of_takeBytes? htake
      exact ⟨u, w, rfl, rfl, by omega⟩
    · cases hpart
  · cases h

/-- **Cuts**: there is a text between two offsets exactly when they are in order, in range and between
characters. -/
theorem exists_slice_iff {t : Text} {start stop : Nat} : (∃ part, t.slice start stop = .ok part) ↔
    start ≤ stop ∧ stop ≤ t.size ∧ t.isBoundary start = true ∧ t.isBoundary stop = true := by
  constructor
  · rintro ⟨part, hpart⟩
    obtain ⟨u, w, rfl, rfl, rfl⟩ := exists_of_slice hpart
    refine ⟨Nat.le_add_right _ _, ?_, isBoundary_size _ _, ?_⟩
    · rw [size_append, size_append]
      omega
    · rw [← List.append_assoc, ← size_append]
      exact isBoundary_size _ _
  · rintro ⟨hle, -, hstart, hstop⟩
    obtain ⟨u, v, rfl, rfl⟩ := exists_of_isBoundary hstart
    obtain ⟨u', v', heq, rfl⟩ := exists_of_isBoundary hstop
    obtain ⟨part, rfl⟩ := exists_of_size_le heq.symm hle
    rw [← List.append_assoc] at heq
    obtain rfl := List.append_cancel_right heq
    exact ⟨part, by rw [size_append, slice_append]⟩

end Text

/-! ## The last boundary up to an offset -/

section Boundary

variable {u t : Text} {n : Nat}

theorem isBoundary_boundaryUpTo (t : Text) (n : Nat) : t.isBoundary (boundaryUpTo t n) = true := by
  induction n with
  | zero => exact t.isBoundary_zero
  | succ n ih =>
    rw [boundaryUpTo]
    split
    · assumption
    · exact ih

theorem boundaryUpTo_le (t : Text) (n : Nat) : boundaryUpTo t n ≤ n := by
  induction n with
  | zero => exact Nat.le_refl 0
  | succ n ih =>
    rw [boundaryUpTo]
    split
    · exact Nat.le_refl _
    · exact Nat.le_succ_of_le ih

theorem boundaryUpTo_mono (t : Text) {m n : Nat} (h : m ≤ n) : boundaryUpTo t m ≤ boundaryUpTo t n := by
  induction n with
  | zero => exact Nat.le_of_eq (congrArg _ (Nat.le_zero.mp h))
  | succ n ih =>
    rcases Nat.eq_or_lt_of_le h with rfl | hlt
    · exact Nat.le_refl _
    · have hm := ih (Nat.le_of_lt_succ hlt)
      have hle := boundaryUpTo_le t n
      rw [boundaryUpTo]
      split <;> omega

theorem boundaryUpTo_append_left (u t : Text) (h : n ≤ u.size) :
    boundaryUpTo (u ++ t) n = boundaryUpTo u n := by
  induction n with
  | zero => rfl
  | succ n ih =>
    rw [boundaryUpTo, boundaryUpTo, Text.isBoundary_append_left u t h, ih (Nat.le_of_succ_le h)]

theorem boundaryUpTo_of_isBoundary (h : t.isBoundary n = true) : boundaryUpTo t n = n := by
  cases n with
  | zero => rfl
  | succ n => rw [boundaryUpTo, if_pos h]

theorem boundaryUpTo_append_right (u t : Text) (n : Nat) :
    boundaryUpTo (u ++ t) (u.size + n) = u.size + boundaryUpTo t n := by
  induction n with
  | zero => exact boundaryUpTo_of_isBoundary (Text.isBoundary_size u t)
  | succ n ih =>
    rw [← Nat.add_assoc, boundaryUpTo, Nat.add_assoc, Text.isBoundary_append_right, ih, boundaryUpTo]
    split <;> rfl

end Boundary

/-! ## Looking back -/

/-- The end of a text in which the word `static` is looked for. -/
def lookback (u : Text) : Text := (u.dropBytes? (boundaryUpTo u (u.size - staticLookback))).getD []

theorem exists_lookback (u : Text) :
    ∃ v, u = v ++ lookback u ∧ v.size = boundaryUpTo u (u.size - staticLookback) := by
  obtain ⟨v, w, hu, hsize⟩ := Text.exists_of_isBoundary (isBoundary_boundaryUpTo u (u.size - staticLookback))
  refine ⟨v, ?_, hsize⟩
  have hdrop : u.dropBytes? v.size = some w := by rw [hu, Text.dropBytes?_append]
  rw [lookback, ← hsize, hdrop]
  exact hu

/-- The word `static` is looked for in what stands before the place. -/
theorem followsStatic_append (u t : Text) :
    followsStatic (u ++ t) u.size = .ok ((lookback u).hasPart "static") := by
  obtain ⟨v, hu, hsize⟩ := exists_lookback u
  have hstop : v.size + (lookback u).size = u.size := by rw [← Text.size_append, ← hu]
  have hslice : (u ++ t).slice v.size u.size = .ok (lookback u) := by
    rw [← hstop]
    nth_rewrite 1 [hu]
    rw [List.append_assoc]
    exact Text.slice_append v (lookback u) t
  rw [followsStatic, boundaryUpTo_append_left u t (Nat.sub_le _ _), ← hsize, hslice]
  rfl

/-- Of two texts one after the other, the end of the first is looked at no further than it would be
alone. -/
theorem exists_lookback_append (y x : Text) : ∃ w, w <:+ lookback y ∧ lookback (y ++ x) = w ++ lookback x := by
  rcases Nat.le_total staticLookback x.size with hlong | hshort
  · refine ⟨[], List.nil_suffix, ?_⟩
    have hcut : (y ++ x).size - staticLookback = y.size + (x.size - staticLookback) := by
      rw [Text.size_append]
      omega
    rw [lookback, hcut, boundaryUpTo_append_right, Text.dropBytes?_append_right, List.nil_append, lookback]
  · have hx : lookback x = x := by
      rw [lookback, Nat.sub_eq_zero_of_le hshort, boundaryUpTo, Text.dropBytes?]
      rfl
    obtain ⟨v, hv, hsize⟩ := exists_lookback y
    obtain ⟨v', hv', hsize'⟩ := exists_lookback (y ++ x)
    have hcut : (y ++ x).size - staticLookback ≤ y.size := by
      rw [Text.size_append]
      omega
    -- both looks go back to a boundary, and the longer text's is not before the other
    have hmono : v.size ≤ v'.size := by
      rw [hsize, hsize', boundaryUpTo_append_left y x hcut]
      apply boundaryUpTo_mono
      rw [Text.size_append]
      omega
    have hle : v'.size ≤ y.size := hsize' ▸ Nat.le_trans (boundaryUpTo_le _ _) hcut
    obtain ⟨w, hw⟩ := Text.exists_of_size_le hv' hle
    refine ⟨w, ?_, by rw [hx, hw]⟩
    have hy : y = v' ++ w := by
      rw [hw, ← List.append_assoc] at hv'
      exact List.append_cancel_right hv'
    obtain ⟨w', hw'⟩ := Text.exists_of_size_le (hy.symm.trans hv) hmono
    exact ⟨w', hw'.symm⟩

/-- Behind a line feed with no `static` near before it, only what follows the line feed counts. -/
theorem hasPart_lookback_append {y : Text} (x : Text) (hy : y.getLast? = some '\n')
    (h : (lookback y).hasPart "static" = false) :
    (lookback (y ++ x)).hasPart "static" = (lookback x).hasPart "static" := by
  obtain ⟨w, hw, hlook⟩ := exists_lookback_append y x
  have hnone : ¬ "static".toList <:+: w := fun hpart => by
    rw [← Bool.not_eq_true, Text.hasPart_iff] at h
    exact h (hpart.trans hw.isInfix)
  rw [hlook, Bool.eq_iff_iff, Text.hasPart_iff, Text.hasPart_iff]
  refine ⟨fun hpart => ?_, fun hpart => hpart.trans (List.suffix_append w _).isInfix⟩
  rcases List.eq_nil_or_concat w with rfl | ⟨w', c, rfl⟩
  · exact hpart
  · obtain ⟨v, hv, -⟩ := exists_lookback y
    obtain rfl : c = '\n' := by
      obtain ⟨z, hz⟩ := hw
      rw [hv, ← hz, List.concat_eq_append, ← List.append_assoc, ← List.append_assoc,
        List.getLast?_concat, Option.some.injEq] at hy
      exact hy
    rw [List.concat_eq_append, List.append_assoc] at hpart
    rcases infix_or_infix_of_not_mem (by decide) hpart with hpart | hpart
    · exact absurd (hpart.trans (List.prefix_append w' ['\n']).isInfix)
        (by rw [← List.concat_eq_append]; exact hnone)
    · exact hpart

end GoDraft
