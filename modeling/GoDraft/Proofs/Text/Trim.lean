import GoDraft.Text.Blank
import Mathlib.Data.List.TakeWhile

/-!
# GoDraft — the blanks at the ends of a text

* `trim_of_ends` — a text between blanks;
* `Text.exists_trim` — every text is one between blanks;
* `Text.trim_trim` — trimming a second time changes nothing.
-/

namespace GoDraft

theorem dropWhile_blank_of_head {t : Text} (h : t.head?.any isBlank = false) :
    t.dropWhile isBlank = t := by
  cases t with
  | nil => rfl
  | cons c t => rw [List.dropWhile_cons_of_neg (by simpa using h)]

theorem trim_of_ends {lead s trail : Text} (hlead : ∀ c ∈ lead, isBlank c = true)
    (htrail : ∀ c ∈ trail, isBlank c = true) (hhead : s.head?.any isBlank = false)
    (hlast : s.getLast?.any isBlank = false) : Text.trim (lead ++ (s ++ trail)) = s := by
  have htrail' : ∀ c ∈ trail.reverse, isBlank c = true := fun c hc => htrail c (List.mem_reverse.mp hc)
  have hlast' : s.reverse.head?.any isBlank = false := by rwa [List.head?_reverse]
  rw [Text.trim, Text.trimStart, List.dropWhile_append_of_pos hlead, Text.trimEnd]
  cases s with
  | nil =>
    rw [List.nil_append, List.dropWhile_eq_nil_iff.mpr htrail]
    rfl
  | cons c s =>
    have hstart : (c :: s ++ trail).dropWhile isBlank = c :: s ++ trail :=
      dropWhile_blank_of_head (by simpa using hhead)
    rw [hstart, List.reverse_append,
      List.dropWhile_append_of_pos htrail', dropWhile_blank_of_head hlast', List.reverse_reverse]

namespace Text

theorem mem_of_mem_trim {t : Text} {c : Char} (h : c ∈ t.trim) : c ∈ t := by
  rw [Text.trim, Text.trimEnd, List.mem_reverse] at h
  have hstart : c ∈ t.trimStart := List.mem_reverse.mp ((List.dropWhile_sublist _).subset h)
  exact (List.dropWhile_sublist _).subset hstart

theorem head?_dropWhile_blank (t : Text) : (t.dropWhile GoDraft.isBlank).head?.any GoDraft.isBlank = false := by
  induction t with
  | nil => rfl
  | cons c t ih =>
    cases hc : GoDraft.isBlank c with
    | true => rwa [List.dropWhile_cons_of_pos hc]
    | false =>
      rw [List.dropWhile_cons_of_neg (by simp [hc])]
      exact hc

theorem trimEnd_append_takeWhile (t : Text) :
    t.trimEnd ++ (t.reverse.takeWhile GoDraft.isBlank).reverse = t := by
  rw [trimEnd, ← List.reverse_append, List.takeWhile_append_dropWhile, List.reverse_reverse]

/-- The blanks that trimming takes away, and the ends of what is left. -/
theorem exists_trim (t : Text) : ∃ lead trail : Text, t = lead ++ (t.trim ++ trail) ∧
    (∀ c ∈ lead, GoDraft.isBlank c = true) ∧ (∀ c ∈ trail, GoDraft.isBlank c = true) ∧
    t.trim.head?.any GoDraft.isBlank = false ∧ t.trim.getLast?.any GoDraft.isBlank = false := by
  have hend := trimEnd_append_takeWhile t.trimStart
  refine ⟨t.takeWhile GoDraft.isBlank, (t.trimStart.reverse.takeWhile GoDraft.isBlank).reverse, ?_,
    fun c => List.mem_takeWhile_imp, fun c hc => List.mem_takeWhile_imp (List.mem_reverse.mp hc), ?_, ?_⟩
  · rw [trim, hend]
    exact List.takeWhile_append_dropWhile.symm
  · cases htrim : t.trim with
    | nil => rfl
    | cons c s =>
      -- what is left begins as the text without the blanks at its start does
      have hstart := head?_dropWhile_blank t
      rw [show t.dropWhile GoDraft.isBlank = t.trimStart from rfl, ← hend, ← trim, htrim] at hstart
      exact hstart
  · rw [trim, trimEnd, List.getLast?_reverse]
    exact head?_dropWhile_blank _

theorem trim_of_trimmed {t : Text} (hhead : t.head?.any GoDraft.isBlank = false)
    (hlast : t.getLast?.any GoDraft.isBlank = false) : t.trim = t := by
  have hnone : ∀ c ∈ ([] : Text), GoDraft.isBlank c = true := by simp
  have htrim := trim_of_ends hnone hnone hhead hlast
  rwa [List.nil_append, List.append_nil] at htrim

theorem trim_trim (t : Text) : t.trim.trim = t.trim := by
  obtain ⟨-, -, -, -, -, hhead, hlast⟩ := exists_trim t
  exact trim_of_trimmed hhead hlast

theorem trim_append_blanks (t : Text) {trail : Text} (h : ∀ c ∈ trail, GoDraft.isBlank c = true) :
    trim (t ++ trail) = t.trim := by
  obtain ⟨lead, trail', ht, hlead, htrail', hhead, hlast⟩ := exists_trim t
  have hall : ∀ c ∈ trail' ++ trail, GoDraft.isBlank c = true := List.forall_mem_append.mpr ⟨htrail', h⟩
  have htrim := trim_of_ends hlead hall hhead hlast
  rwa [← List.append_assoc t.trim, ← List.append_assoc lead, ← ht] at htrim

/-- A text with a character that is no blank has something left. -/
theorem trim_ne_nil {t : Text} {c : Char} (hc : c ∈ t) (hblank : GoDraft.isBlank c = false) : t.trim ≠ [] := by
  intro hnil
  obtain ⟨lead, trail, ht, hlead, htrail, -⟩ := exists_trim t
  rw [hnil, List.nil_append] at ht
  rw [ht, List.mem_append] at hc
  have hc' : GoDraft.isBlank c = true := hc.elim (hlead c) (htrail c)
  rw [hc'] at hblank
  cases hblank

theorem trim_infix (t : Text) : t.trim <:+: t := by
  obtain ⟨lead, trail, ht, -⟩ := exists_trim t
  exact ⟨lead, trail, by rw [List.append_assoc]; exact ht.symm⟩

end Text

end GoDraft
