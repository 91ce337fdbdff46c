import GoDraft.Scan.Scanner
import GoDraft.Text.Basic

/-!
# GoDraft — the letters of a scan

* `map_letter_scan` — the letters of a scan are those of the text, in order;
* `zone_of_mem_scan` — a text without quotes and slashes is all code;
* `stripComments_of_plain` — such a text has no comments to strip;
* `mark_eq_plain`, `eq_of_mark` — the characters that have marks.
-/

namespace GoDraft

variable {α : Type} [Marked α]

theorem Scanner.map_letter_run (s : Scanner) (letters : List α) :
    (s.run letters).map Seen.letter = letters := by
  induction letters generalizing s with
  | nil => rfl
  | cons a rest ih =>
    rw [run, List.map_cons, ih]

theorem map_letter_scan (letters : List α) : (scan letters).map Seen.letter = letters :=
  Scanner.start.map_letter_run letters

/-! ## Texts that are all code -/

/-- Whether a mark can lead out of code. -/
def Mark.leavesCode : Mark → Bool
  | .quote _ | .slash => true
  | _ => false

namespace Scanner

/-- The scanner stands in code, with no letter settled ahead. -/
structure InCode (s : Scanner) : Prop where
  zone : s.zone = .code
  carry : s.carry = none

theorem InCode.step {s : Scanner} (h : s.InCode) {m : Mark} (hm : m.leavesCode = false)
    (next : Option Mark) : (s.step m next).1 = .code ∧ (s.step m next).2.InCode := by
  unfold Scanner.step
  rw [h.carry, h.zone]
  cases m with
  | quote q => cases hm
  | slash => cases hm
  | openBrace => exact ⟨rfl, rfl, rfl⟩
  | closeBrace => exact ⟨rfl, rfl, rfl⟩
  | _ => exact ⟨rfl, h⟩

theorem zone_of_mem_run {s : Scanner} (h : s.InCode) {letters : List α}
    (hplain : ∀ a ∈ letters, (Marked.mark a).leavesCode = false) :
    ∀ x ∈ s.run letters, x.zone = .code := by
  induction letters generalizing s with
  | nil => exact fun _ hx => absurd hx List.not_mem_nil
  | cons a rest ih =>
    rw [List.forall_mem_cons] at hplain
    obtain ⟨hzone, hnext⟩ := h.step hplain.1 (rest.head?.map Marked.mark)
    rw [run, List.forall_mem_cons]
    exact ⟨hzone, ih hnext hplain.2⟩

end Scanner

theorem zone_of_mem_scan {letters : List α}
    (hplain : ∀ a ∈ letters, (Marked.mark a).leavesCode = false) : ∀ x ∈ scan letters, x.zone = .code :=
  Scanner.zone_of_mem_run ⟨rfl, rfl⟩ hplain

theorem stripComments_of_plain {letters : List α}
    (hplain : ∀ a ∈ letters, (Marked.mark a).leavesCode = false) : stripComments letters = letters := by
  have hkeep : (scan letters).filter (fun s => !s.zone.isComment) = scan letters := by
    rw [List.filter_eq_self]
    intro x hx
    rw [zone_of_mem_scan hplain x hx]
    rfl
  rw [stripComments, hkeep, map_letter_scan]

/-- The characters with a mark. -/
def markedChars : Text := "\"'/*\\\n\x7b\x7d"

theorem mark_eq_plain {c : Char} (h : c ∉ markedChars) : (Marked.mark c : Mark) = .plain := by
  have hcode : ∀ d ∈ markedChars, c.toNat ≠ d.toNat := by
    intro d hd hc
    rw [← Char.ofNat_toNat c, hc, Char.ofNat_toNat] at h
    exact h hd
  have hdouble : c.toNat ≠ 0x22 := hcode '"' (by decide)
  have hsingle : c.toNat ≠ 0x27 := hcode '\'' (by decide)
  have hslash : c.toNat ≠ 0x2f := hcode '/' (by decide)
  have hstar : c.toNat ≠ 0x2a := hcode '*' (by decide)
  have hback : c.toNat ≠ 0x5c := hcode '\\' (by decide)
  have hnewline : c.toNat ≠ 0x0a := hcode '\n' (by decide)
  have hopen : c.toNat ≠ 0x7b := hcode '{' (by decide)
  have hclose : c.toNat ≠ 0x7d := hcode '}' (by decide)
  show Mark.ofCode c.toNat = .plain
  rw [Mark.ofCode, if_neg hdouble, if_neg hsingle, if_neg hslash, if_neg hstar, if_neg hback,
    if_neg hnewline, if_neg hopen, if_neg hclose]

/-- A character with a mark is told by it. -/
theorem eq_of_mark {c d : Char} (h : (Marked.mark c : Mark) = Marked.mark d) (hd : (Marked.mark d : Mark) ≠ .plain) :
    c = d := by
  have hmem {b : Char} (hb : (Marked.mark b : Mark) ≠ .plain) : b ∈ markedChars :=
    Decidable.not_not.1 fun hnot => hb (mark_eq_plain hnot)
  have hinj : ∀ a ∈ markedChars, ∀ b ∈ markedChars, (Marked.mark a : Mark) = Marked.mark b → a = b := by decide
  exact hinj c (hmem (h ▸ hd)) d (hmem hd) h

theorem leavesCode_of_char {c : Char} (h : c ∉ "\"'/".toList) : (Marked.mark c).leavesCode = false := by
  by_cases hc : c ∈ markedChars
  · have hstays : ∀ d ∈ markedChars, d ∉ "\"'/".toList → (Marked.mark d).leavesCode = false := by decide
    exact hstays c hc h
  · rw [mark_eq_plain hc]
    rfl

end GoDraft
