import GoDraft.Proofs.Text.Boundary
import GoDraft.Text.WordChar
import Mathlib.Data.List.Infix

/-!
# GoDraft — how often a name is called in a text

A call of a dotted name is the name with an opening parenthesis right behind it. It is counted at the
parenthesis, so a text read character by character gains a call with some of its parentheses. Texts put together
have the calls of both, and those that go across the seam. None does where one of the sides has a character at
the seam that dotted names do not have.

* `Text.calls` — the number of calls of a name in a text;
* `Text.calls_append_le` — texts put together have no fewer;
* `Text.calls_append_of_isCut`, `Text.calls_append_of_goesOn` — seams that no call goes across;
* `Text.calls_append_of_isFresh` — a text that makes no call behind any other.
-/

namespace GoDraft

/-- Whether a character can be part of a dotted name. -/
def isDottedChar (c : Char) : Bool := isWordChar c || c == '.'

/-- Whether a text has only characters of dotted names. -/
def IsDotted (name : Text) : Prop := ∀ c ∈ name, isDottedChar c = true

instance (name : Text) : Decidable (IsDotted name) :=
  inferInstanceAs (Decidable (∀ c ∈ name, isDottedChar c = true))

namespace Text

/-- The number of calls of a name in a text, counted where they end. -/
def calls (name t : Text) : Nat := t.inits.countP fun front => decide (name ++ ['('] <:+ front)

/-- The calls in two texts that end in the second one. -/
def callsBehind (name s t : Text) : Nat := t.inits.tail.countP fun front => decide (name ++ ['('] <:+ s ++ front)

/-- Whether a text ends with a character that dotted names do not have. -/
def isCut (t : Text) : Bool := t.getLast?.any (!isDottedChar ·)

/-- Whether a text may go on with a dotted name from before it, or with a call of one. -/
def goesOn (t : Text) : Bool := t.head?.any fun c => isDottedChar c || c == '('

/-- Whether a text makes no call of a name, whatever stands before it. -/
def isFresh (name t : Text) : Bool :=
  t.inits.tail.all fun front => !decide (name ++ ['('] <:+ front) && !decide (front <:+ name ++ ['('])

theorem suffix_append_iff {w s t : Text} : w <:+ s ++ t ↔ w <:+ t ∨ ∃ x, x ≠ [] ∧ x <:+ s ∧ w = x ++ t := by
  constructor
  · intro h
    rcases List.suffix_or_suffix_of_suffix h (List.suffix_append s t) with hw | ⟨x, rfl⟩
    · exact .inl hw
    · by_cases hx : x = []
      · exact .inl (hx ▸ List.suffix_refl t)
      · obtain ⟨y, hy⟩ := h
        rw [← List.append_assoc] at hy
        exact .inr ⟨x, hx, ⟨y, List.append_cancel_right hy⟩, rfl⟩
  · rintro (h | ⟨x, -, hx, rfl⟩)
    · exact h.trans (List.suffix_append s t)
    · obtain ⟨y, rfl⟩ := hx
      exact ⟨y, by simp⟩

theorem mem_tail_inits {t front : Text} (h : front ∈ t.inits.tail) : front ≠ [] ∧ front <+: t := by
  cases t with
  | nil => cases h
  | cons c t =>
    have hmem : front ∈ t.inits.map (c :: ·) := by simpa using h
    obtain ⟨u, hu, rfl⟩ := List.mem_map.mp hmem
    exact ⟨by simp, List.cons_prefix_cons.mpr ⟨rfl, (List.mem_inits u t).mp hu⟩⟩

theorem exists_of_isCut {t : Text} (h : t.isCut = true) : ∃ front c, t = front ++ [c] ∧ isDottedChar c = false := by
  rw [isCut, Option.any_eq_true] at h
  obtain ⟨c, hlast, hc⟩ := h
  obtain ⟨front, rfl⟩ := List.getLast?_eq_some_iff.mp hlast
  exact ⟨front, c, rfl, by simpa using hc⟩

theorem isCut_append {t : Text} (h : t.isCut = true) (s : Text) : isCut (s ++ t) = true := by
  obtain ⟨front, c, rfl, hc⟩ := exists_of_isCut h
  rw [isCut, ← List.append_assoc, List.getLast?_concat]
  simpa using hc

section Calls

variable (name : Text)

/-! ## Texts put together -/

theorem calls_append (s t : Text) : calls name (s ++ t) = calls name s + callsBehind name s t := by
  rw [calls, List.inits_append, List.countP_append, List.countP_map]
  rfl

@[simp] theorem calls_nil : calls name [] = 0 := by
  simp [calls]

theorem calls_eq_behind (t : Text) : calls name t = callsBehind name [] t := by
  have happend := calls_append name [] t
  rwa [List.nil_append, calls_nil, Nat.zero_add] at happend

theorem calls_le_behind (s t : Text) : calls name t ≤ callsBehind name s t := by
  rw [calls_eq_behind]
  apply List.countP_mono_left
  intro front _ h
  exact decide_eq_true ((of_decide_eq_true h).trans (List.suffix_append s front))

theorem calls_append_le (s t : Text) : calls name s + calls name t ≤ calls name (s ++ t) := by
  have hbehind := calls_le_behind name s t
  rw [calls_append]
  omega

theorem calls_le_of_infix {s t : Text} (h : s <:+: t) : calls name s ≤ calls name t := by
  obtain ⟨a, b, rfl⟩ := h
  have hfront := calls_append_le name a s
  have hall := calls_append_le name (a ++ s) b
  omega

theorem calls_le_cons (c : Char) (t : Text) : calls name t ≤ calls name (c :: t) :=
  calls_le_of_infix name (List.suffix_cons c t).isInfix

/-- What is dropped from the end of a text, which is kept last character first, takes calls with it. -/
theorem calls_reverse_dropWhile_le (accepts : Char → Bool) (t : Text) :
    calls name (t.dropWhile accepts).reverse ≤ calls name t.reverse :=
  calls_le_of_infix name (List.reverse_prefix.mpr (List.dropWhile_suffix accepts)).isInfix

theorem calls_pos_iff {t : Text} : 0 < calls name t ↔ name ++ ['('] <:+: t := by
  rw [calls, List.countP_pos_iff]
  constructor
  · rintro ⟨front, hfront, h⟩
    exact (of_decide_eq_true h).isInfix.trans ((List.mem_inits front t).mp hfront).isInfix
  · rintro ⟨a, b, rfl⟩
    exact ⟨a ++ (name ++ ['(']), (List.mem_inits _ _).mpr (List.prefix_append _ b), by simp⟩

/-! ## Seams that no call goes across -/

/-- Where no call goes across a seam, there are those of both sides. -/
theorem calls_append_of_forall {s t : Text}
    (h : ∀ front x, front ≠ [] → front <+: t → x ≠ [] → x <:+ s → name ++ ['('] ≠ x ++ front) :
    calls name (s ++ t) = calls name s + calls name t := by
  have hle : callsBehind name s t ≤ calls name t := by
    rw [calls_eq_behind name t]
    apply List.countP_mono_left
    intro front hfront hbehind
    obtain ⟨hne, hstart⟩ := mem_tail_inits hfront
    rcases suffix_append_iff.mp (of_decide_eq_true hbehind) with hsuffix | ⟨x, hx, hs, heq⟩
    · exact decide_eq_true hsuffix
    · exact absurd heq (h front x hne hstart hx hs)
  have hge := calls_le_behind name s t
  rw [calls_append]
  omega

/-- A text that is fresh adds no call to any other. -/
theorem calls_append_of_isFresh {t : Text} (h : isFresh name t = true) (s : Text) :
    calls name (s ++ t) = calls name s := by
  have hnone : callsBehind name s t = 0 := by
    rw [callsBehind, List.countP_eq_zero]
    intro front hfront hbehind
    have hall := List.all_eq_true.mp h front hfront
    rw [Bool.and_eq_true, Bool.not_eq_true', Bool.not_eq_true', decide_eq_false_iff_not,
      decide_eq_false_iff_not] at hall
    rcases suffix_append_iff.mp (of_decide_eq_true hbehind) with hsuffix | ⟨x, -, -, heq⟩
    · exact hall.1 hsuffix
    · exact hall.2 ⟨x, heq.symm⟩
  rw [calls_append, hnone, Nat.add_zero]

/-- A text without a parenthesis adds no call to any other. -/
theorem calls_append_of_not_mem {t : Text} (h : '(' ∉ t) (s : Text) : calls name (s ++ t) = calls name s := by
  have hnone : callsBehind name s t = 0 := by
    rw [callsBehind, List.countP_eq_zero]
    intro front hfront hbehind
    obtain ⟨hne, hstart⟩ := mem_tail_inits hfront
    rcases suffix_append_iff.mp (of_decide_eq_true hbehind) with ⟨x, hx⟩ | ⟨x, -, -, heq⟩
    · exact h (hstart.subset (by rw [← hx]; simp))
    · have hlast := congrArg List.getLast? heq
      rw [List.getLast?_concat, List.getLast?_append_of_ne_nil _ hne] at hlast
      exact h (hstart.subset (List.mem_of_getLast? hlast.symm))
  rw [calls_append, hnone, Nat.add_zero]

theorem calls_eq_zero {t : Text} (h : '(' ∉ t) : calls name t = 0 := by
  have happend := calls_append_of_not_mem name h []
  rwa [List.nil_append, calls_nil] at happend

variable {name} (hname : IsDotted name)

include hname

theorem not_mem_of_isDotted {c : Char} (hc : isDottedChar c = false) : c ∉ name := by
  intro hmem
  rw [hname c hmem] at hc
  cases hc

/-- No call goes on behind a character that dotted names do not have. -/
theorem calls_append_of_isCut {s : Text} (hs : s.isCut = true) (t : Text) :
    calls name (s ++ t) = calls name s + calls name t := by
  obtain ⟨s, c, rfl, hc⟩ := exists_of_isCut hs
  apply calls_append_of_forall
  intro front x hne _ hx hsuffix heq
  -- the part of the call before the seam ends with the character, and is not the whole call
  obtain ⟨x, d, rfl⟩ := (List.eq_nil_or_concat' x).resolve_left hx
  obtain rfl : d = c := by
    obtain ⟨y, hy⟩ := hsuffix
    rw [← List.append_assoc] at hy
    exact List.singleton_inj.mp (List.append_inj' hy rfl).2
  obtain ⟨front, e, rfl⟩ := (List.eq_nil_or_concat' front).resolve_left hne
  rw [← List.append_assoc] at heq
  exact not_mem_of_isDotted hname hc (by rw [(List.append_inj' heq rfl).1]; simp)

/-- No call goes on into a text that does not go on with one. -/
theorem calls_append_of_goesOn {t : Text} (ht : t.goesOn = false) (s : Text) :
    calls name (s ++ t) = calls name s + calls name t := by
  apply calls_append_of_forall
  intro front x hne hstart _ _ heq
  obtain ⟨c, front', rfl⟩ := List.exists_cons_of_ne_nil hne
  obtain ⟨rest, rfl⟩ := hstart
  have hc : isDottedChar c = false ∧ c ≠ '(' := by simpa [goesOn] using ht
  have hmem : c ∈ name ++ ['('] := by rw [heq]; simp
  rcases List.mem_append.mp hmem with hmem | hmem
  · exact not_mem_of_isDotted hname hc.1 hmem
  · exact hc.2 (List.mem_singleton.mp hmem)

/-- A character that calls do not have separates the calls before it from those behind it. -/
theorem calls_append_cons {c : Char} (hc : isDottedChar c = false) (hparen : c ≠ '(') (s t : Text) :
    calls name (s ++ c :: t) = calls name s + calls name t := by
  rw [List.append_cons, calls_append_of_isCut hname (by simp [isCut, hc]),
    calls_append_of_not_mem name (by simpa using hparen.symm)]

end Calls

end Text

end GoDraft
