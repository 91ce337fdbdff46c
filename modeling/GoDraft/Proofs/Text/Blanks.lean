import GoDraft.Text.Blank
import GoDraft.Text.WordChar

/-!
# GoDraft — blanks are outside words

No blank is a character of a word or of a name. Below U+0080 this is seen by trying all characters, and
above by comparing ranges of code points.

* `CodeRanges.has_of_apart` — sets of code points with nothing in common;
* `isWordChar_of_isBlank`, `isNameChar_of_isBlank` — blanks against words and names.
-/

namespace GoDraft

/-- Whether no code point is in two sets. -/
def CodeRanges.apart (xs ys : CodeRanges) : Bool :=
  xs.all fun r => ys.all fun q => Nat.blt r.2 q.1 || Nat.blt q.2 r.1

theorem CodeRanges.has_of_apart {xs : CodeRanges} (ys : CodeRanges) (h : xs.apart ys = true) {c : Char}
    (hc : xs.has c = true) : ys.has c = false := by
  rw [Bool.eq_false_iff]
  intro hc'
  simp only [has, List.any_eq_true, Bool.and_eq_true, decide_eq_true_eq] at hc hc'
  obtain ⟨r, hr, hr'⟩ := hc
  obtain ⟨q, hq, hq'⟩ := hc'
  have hapart := List.all_eq_true.mp (List.all_eq_true.mp h r hr) q hq
  rw [Bool.or_eq_true, Nat.blt_eq, Nat.blt_eq] at hapart
  omega

/-- Blanks and the letters, digits and underscores below U+0080. -/
theorem isAlphanum_of_isBlank {c : Char} (h : isBlank c = true) (hlow : c.toNat < 128) :
    (c.isAlphanum || c == '_') = false := by
  have hascii : ∀ n < 128, ((9 ≤ (Char.ofNat n).toNat && (Char.ofNat n).toNat ≤ 13) ||
      Char.ofNat n == ' ') = true → ((Char.ofNat n).isAlphanum || Char.ofNat n == '_') = false := by
    decide +kernel
  have hc := hascii c.toNat hlow
  rw [Char.ofNat_toNat] at hc
  rw [isBlank, if_pos hlow] at h
  exact hc h

/-- A blank is no part of a word. -/
theorem isWordChar_of_isBlank {c : Char} (h : isBlank c = true) : isWordChar c = false := by
  unfold isWordChar
  split
  · rename_i hlow
    exact isAlphanum_of_isBlank h hlow
  · rename_i hhigh
    rw [isBlank, if_neg hhigh] at h
    have hletter := CodeRanges.has_of_apart alphabeticRanges (by decide +kernel) h
    have hmark := CodeRanges.has_of_apart markRanges (by decide +kernel) h
    have hdigit := CodeRanges.has_of_apart decimalRanges (by decide +kernel) h
    have hjoin := CodeRanges.has_of_apart connectorRanges (by decide +kernel) h
    rw [hletter, hmark, hdigit, hjoin]
    rfl

theorem isBlank_of_isWordChar {c : Char} (h : isWordChar c = true) : isBlank c = false := by
  rw [Bool.eq_false_iff]
  intro hblank
  rw [isWordChar_of_isBlank hblank] at h
  exact Bool.false_ne_true h

/-- A blank is no part of a name. -/
theorem isNameChar_of_isBlank {c : Char} (h : isBlank c = true) : isNameChar c = false := by
  unfold isNameChar isAlphanumeric
  split
  · rename_i hlow
    exact isAlphanum_of_isBlank h hlow
  · rename_i hhigh
    have hunderscore : (c == '_') = false := by
      rw [beq_eq_false_iff_ne]
      rintro rfl
      exact hhigh (by decide)
    rw [isBlank, if_neg hhigh] at h
    have hletter := CodeRanges.has_of_apart alphabeticRanges (by decide +kernel) h
    have hdigit := CodeRanges.has_of_apart decimalRanges (by decide +kernel) h
    have hnumeral := CodeRanges.has_of_apart numeralRanges (by decide +kernel) h
    rw [isAlphabetic, isNumeral, if_neg hhigh, if_neg hhigh, hletter, hdigit, hnumeral, hunderscore]
    rfl

end GoDraft
