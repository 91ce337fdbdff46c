import GoDraft.Text.Uppercase
import GoDraft.Text.WordChar

/-!
# GoDraft — what upper-case forms hold

Upper-case forms are letters and marks above the small signs of ASCII, and none of them is a small letter of
ASCII. So a name in upper case has no line feed, and no small letters but those it had.

* `IsUpperForm` — the characters that upper-case forms are made of;
* `mem_uppercase` — a character of an upper-case form is one of them, unless the form is the character itself;
* `isLower_of_mem_uppercase` — it is no small letter;
* `isWordChar_of_mem_uppercase` — the upper-case form of a character of words is a word.
-/

namespace GoDraft

/-- Whether a character can be part of the upper-case form of another. -/
def IsUpperForm (c : Char) : Prop := 'A'.toNat ≤ c.toNat ∧ ¬ ('a'.toNat ≤ c.toNat ∧ c.toNat ≤ 'z'.toNat)

instance (c : Char) : Decidable (IsUpperForm c) :=
  inferInstanceAs (Decidable ('A'.toNat ≤ c.toNat ∧ ¬ ('a'.toNat ≤ c.toNat ∧ c.toNat ≤ 'z'.toNat)))

/-- Whether the upper-case forms of a run stay clear of the small letters of ASCII and of the code points that
are no characters. -/
def CaseRun.isClear (r : CaseRun) : Bool :=
  'A'.toNat ≤ r.upper && r.upper + (r.last - r.first) < 0xd800
      && (r.upper + (r.last - r.first) < 'a'.toNat || 'z'.toNat < r.upper)
    || 0xdfff < r.upper && r.upper + (r.last - r.first) < 0x110000

theorem toNat_ofNat_of_isClear {r : CaseRun} (hr : r.isClear = true) {n : Nat} (hn : n ≤ r.last - r.first) :
    (Char.ofNat (r.upper + n)).toNat = r.upper + n := by
  simp only [CaseRun.isClear, Bool.or_eq_true, Bool.and_eq_true, decide_eq_true_eq] at hr
  have hvalid : (r.upper + n).isValidChar := by
    simp only [Nat.isValidChar]
    omega
  rw [Char.ofNat, dif_pos hvalid]
  rfl

theorem isUpperForm_of_isClear {r : CaseRun} (hr : r.isClear = true) {n : Nat} (hn : n ≤ r.last - r.first) :
    IsUpperForm (Char.ofNat (r.upper + n)) := by
  have hcode := toNat_ofNat_of_isClear hr hn
  simp only [CaseRun.isClear, Bool.or_eq_true, Bool.and_eq_true, decide_eq_true_eq] at hr
  have hA : 'A'.toNat = 0x41 := rfl
  have ha : 'a'.toNat = 0x61 := rfl
  have hz : 'z'.toNat = 0x7a := rfl
  rw [IsUpperForm, hcode]
  omega

/-- A character of an upper-case form is one of those, or the form is that of a character without another. -/
theorem mem_uppercase {c d : Char} (h : d ∈ uppercase c) :
    d = c ∧ ¬ ('a'.toNat ≤ c.toNat ∧ c.toNat ≤ 'z'.toNat) ∨ IsUpperForm d := by
  rw [uppercase] at h
  split at h
  · rename_i hlow
    have hascii : ∀ n : Fin 128, (Char.ofNat n).toUpper = Char.ofNat n ∧
        ¬ ('a'.toNat ≤ (Char.ofNat n).toNat ∧ (Char.ofNat n).toNat ≤ 'z'.toNat) ∨
          IsUpperForm (Char.ofNat n).toUpper := by
      decide
    have hc := hascii ⟨c.toNat, hlow⟩
    rw [Char.ofNat_toNat] at hc
    rw [List.mem_singleton.mp h]
    exact hc
  · rename_i hhigh
    split at h
    · rename_i form hform
      -- the tables are gone through once, entry by entry
      have hlong : ∀ entry ∈ longUppercase, ∀ n ∈ entry.2, IsUpperForm (Char.ofNat n) := by decide +kernel
      obtain ⟨n, hn, rfl⟩ := List.mem_map.mp h
      obtain ⟨l₁, l₂, hl, -⟩ := List.lookup_eq_some_iff.mp hform
      exact .inr (hlong (c.toNat, form) (by simp [hl]) n hn)
    · split at h
      · rename_i r hr
        have hclear : ∀ r ∈ caseRuns, r.isClear = true := by decide +kernel
        have hhas := List.find?_some hr
        simp only [CaseRun.has, Bool.and_eq_true, decide_eq_true_eq] at hhas
        rw [List.mem_singleton.mp h]
        exact .inr (isUpperForm_of_isClear (hclear r (List.mem_of_find?_eq_some hr)) (by omega))
      · refine .inl ⟨List.mem_singleton.mp h, ?_⟩
        have hz : 'z'.toNat = 0x7a := rfl
        omega

theorem newline_notMem_uppercase {c : Char} (hc : c ≠ '\n') : '\n' ∉ uppercase c := by
  intro h
  rcases mem_uppercase h with ⟨hself, -⟩ | hform
  · exact hc hself.symm
  · exact absurd hform (by decide)

/-- An upper-case form has no small letter of ASCII. -/
theorem isLower_of_mem_uppercase {c d : Char} (h : d ∈ uppercase c) : d.isLower = false := by
  have hnone : ¬ ('a'.toNat ≤ d.toNat ∧ d.toNat ≤ 'z'.toNat) := by
    rcases mem_uppercase h with ⟨rfl, hself⟩ | hform
    · exact hself
    · exact hform.2
  rw [Bool.eq_false_iff]
  intro hlower
  obtain ⟨ha, hz⟩ : decide (d.val ≥ 'a'.val) = true ∧ decide (d.val ≤ 'z'.val) = true := Bool.and_eq_true_iff.mp hlower
  exact hnone ⟨UInt32.le_iff_toNat_le.mp (of_decide_eq_true ha), UInt32.le_iff_toNat_le.mp (of_decide_eq_true hz)⟩

/-- Whether the upper-case forms of a run are characters of words: all in one range of letters, or else one by one. -/
def CaseRun.isWords (r : CaseRun) : Bool :=
  r.isClear && 128 ≤ r.upper
      && (alphabeticRanges.any fun range => range.1.ble r.upper && (r.upper + (r.last - r.first)).ble range.2)
    || (List.range (r.last - r.first + 1)).all fun n => n % r.step != 0 || isWordChar (Char.ofNat (r.upper + n))

theorem isWords_of_mem_caseRuns : ∀ r ∈ caseRuns, r.isWords = true := by decide +kernel

theorem isWordChar_of_isWords {r : CaseRun} (hr : r.isWords = true) {n : Nat} (hn : n ≤ r.last - r.first)
    (hstep : n % r.step = 0) : isWordChar (Char.ofNat (r.upper + n)) = true := by
  rw [CaseRun.isWords, Bool.or_eq_true, Bool.and_eq_true, Bool.and_eq_true, decide_eq_true_eq, List.any_eq_true,
    List.all_eq_true] at hr
  rcases hr with ⟨⟨hclear, hhigh⟩, range, hmem, hrange⟩ | hall
  · rw [Bool.and_eq_true, Nat.ble_eq, Nat.ble_eq] at hrange
    have hcode := toNat_ofNat_of_isClear hclear hn
    have hletter : alphabeticRanges.has (Char.ofNat (r.upper + n)) = true := by
      rw [CodeRanges.has, List.any_eq_true]
      refine ⟨range, hmem, ?_⟩
      rw [hcode, Bool.and_eq_true, decide_eq_true_eq, decide_eq_true_eq]
      omega
    rw [isWordChar, if_neg (by omega), hletter]
    rfl
  · have hword := hall n (by rw [List.mem_range]; omega)
    simpa [hstep] using hword

/-- The upper-case form of a character of words is a word. -/
theorem isWordChar_of_mem_uppercase {c d : Char} (hc : isWordChar c = true) (h : d ∈ uppercase c) :
    isWordChar d = true := by
  rw [uppercase] at h
  split at h
  · rename_i hlow
    have hascii : ∀ n : Fin 128, isWordChar (Char.ofNat n) = true → isWordChar (Char.ofNat n).toUpper = true := by decide
    have hupper := hascii ⟨c.toNat, hlow⟩
    rw [Char.ofNat_toNat] at hupper
    rw [List.mem_singleton.mp h]
    exact hupper hc
  · split at h
    · rename_i form hform
      have hlong : ∀ entry ∈ longUppercase, ∀ n ∈ entry.2, isWordChar (Char.ofNat n) = true := by decide +kernel
      obtain ⟨n, hn, rfl⟩ := List.mem_map.mp h
      obtain ⟨l₁, l₂, hl, -⟩ := List.lookup_eq_some_iff.mp hform
      exact hlong (c.toNat, form) (by simp [hl]) n hn
    · split at h
      · rename_i r hr
        have hhas := List.find?_some hr
        simp only [CaseRun.has, Bool.and_eq_true, decide_eq_true_eq, beq_iff_eq] at hhas
        rw [List.mem_singleton.mp h]
        exact isWordChar_of_isWords (isWords_of_mem_caseRuns r (List.mem_of_find?_eq_some hr)) (by omega) hhas.2
      · rw [List.mem_singleton.mp h]
        exact hc

end GoDraft
