import GoDraft.Java.Methods
import GoDraft.Proofs.Text.Lines

/-!
# GoDraft — parameter lists

There are many ways to write a list of parameters: with any blanks around the words and commas, with `final` before a
type or behind it, and with entries between the commas that declare nothing. All of them are read back.

* `Spaced` — words with blanks around them;
* `ParamEntries` — what can stand between the commas;
* `parseParams_join_entries` — whatever the way, the parameters are read back.
-/

namespace GoDraft

/-! ## Entries -/

/-- Whether a text can be a word of an entry: it has neither blanks nor commas. -/
def IsEntryWord (w : Text) : Prop := w ≠ [] ∧ ∀ c ∈ w, isBlank c = false ∧ c ≠ ','

instance (w : Text) : Decidable (IsEntryWord w) := inferInstanceAs (Decidable (_ ∧ _))

/-- Words with blanks between them, and with any blanks around them. -/
inductive Spaced : List Text → Text → Prop where
  | blanks (gap : Text) (hgap : gap.isBlank = true) : Spaced [] gap
  | word (gap : Text) {w t : Text} {ws : List Text} (hgap : gap.isBlank = true) (hw : IsEntryWord w)
      (hsep : ws ≠ [] → t.head?.any isBlank = true) (rest : Spaced ws t) : Spaced (w :: ws) (gap ++ (w ++ t))

namespace Spaced

variable {ws : List Text} {t : Text}

/-- Behind the words of a text there are blanks, or nothing. -/
theorem words_append (h : Spaced ws t) (hwords : t.words = ws) (hsep : ws ≠ [] → t.head?.any isBlank = true) {w : Text}
    (hw : IsEntryWord w) : Text.words (w ++ t) = w :: ws := by
  have hplain : ∀ c ∈ w, isBlank c = false := fun c hc => (hw.2 c hc).1
  cases t with
  | nil =>
    rw [List.append_nil, Text.words_word hplain hw.1, ← hwords]
    rfl
  | cons c t =>
    have hc : isBlank c = true := by
      by_cases hws : ws = []
      · subst hws
        cases h with
        | blanks _ hgap =>
          rw [Text.isBlank, List.all_cons, Bool.and_eq_true] at hgap
          exact hgap.1
      · exact hsep hws
    rw [Text.words_append_blank hplain hw.1 hc, ← hwords, Text.words_cons_of_isBlank hc]

theorem words_eq (h : Spaced ws t) : t.words = ws := by
  induction h with
  | blanks gap hgap =>
    have hall := Text.words_append_of_isBlank hgap []
    rwa [List.append_nil] at hall
  | word gap hgap hw hsep rest ih => rw [Text.words_append_of_isBlank hgap, rest.words_append ih hsep hw]

theorem comma_notMem_of_isBlank {gap : Text} (hgap : gap.isBlank = true) : ',' ∉ gap := by
  intro hcomma
  have hblank := List.all_eq_true.mp hgap _ hcomma
  revert hblank
  decide

theorem comma_notMem (h : Spaced ws t) : ',' ∉ t := by
  induction h with
  | blanks _ hgap => exact comma_notMem_of_isBlank hgap
  | word _ hgap hw _ _ ih =>
    rw [List.mem_append, List.mem_append, not_or, not_or]
    exact ⟨comma_notMem_of_isBlank hgap, fun hcomma => (hw.2 _ hcomma).2 rfl, ih⟩

end Spaced

/-! ## Lists -/

/-- The modifier of a parameter, some number of times. -/
def finals (n : Nat) : List Text := List.replicate n "final"

/-- What stands between the commas of a parameter list: an entry for each parameter, and others that have fewer than
two words besides `final`. -/
inductive ParamEntries : List Param → List Text → Prop where
  | nil : ParamEntries [] []
  | param {p : Param} {k m n : Nat} {entry : Text} {ps : List Param} {entries : List Text}
      (htype : p.typeName ≠ "final".toList) (hname : p.name ≠ "final".toList)
      (hentry : Spaced (finals k ++ p.typeName :: (finals m ++ p.name :: finals n)) entry)
      (rest : ParamEntries ps entries) : ParamEntries (p :: ps) (entry :: entries)
  | extra {ws : List Text} {entry : Text} {ps : List Param} {entries : List Text} (hentry : Spaced ws entry)
      (hws : ws.countP (· != "final".toList) < 2) (rest : ParamEntries ps entries) : ParamEntries ps (entry :: entries)

theorem filter_finals (n : Nat) : (finals n).filter (· != ("final" : Text)) = [] := by
  rw [List.filter_eq_nil_iff]
  intro w hw
  rw [List.eq_of_mem_replicate hw]
  simp

theorem paramOf?_of_spaced {p : Param} {k m n : Nat} {entry : Text} (htype : p.typeName ≠ "final".toList)
    (hname : p.name ≠ "final".toList)
    (h : Spaced (finals k ++ p.typeName :: (finals m ++ p.name :: finals n)) entry) : paramOf? entry = some p := by
  rw [paramOf?, h.words_eq, List.filter_append, filter_finals, List.nil_append,
    List.filter_cons_of_pos (by simpa using htype), List.filter_append, filter_finals, List.nil_append,
    List.filter_cons_of_pos (by simpa using hname)]

/-- An entry with fewer than two words declares nothing. -/
theorem paramOf?_of_countP_lt {ws : List Text} {entry : Text} (h : Spaced ws entry)
    (hws : ws.countP (· != "final".toList) < 2) : paramOf? entry = none := by
  have hlength : (ws.filter (· != ("final" : Text))).length < 2 := by
    rwa [← List.countP_eq_length_filter]
  rw [paramOf?, h.words_eq]
  split
  · rename_i hwords
    rw [hwords, List.length_cons, List.length_cons] at hlength
    omega
  · rfl

namespace ParamEntries

variable {ps : List Param} {entries : List Text}

theorem comma_notMem (h : ParamEntries ps entries) : ∀ entry ∈ entries, ',' ∉ entry := by
  induction h with
  | nil => exact fun _ hentry => absurd hentry List.not_mem_nil
  | param _ _ hentry _ ih => exact List.forall_mem_cons.mpr ⟨hentry.comma_notMem, ih⟩
  | extra hentry _ _ ih => exact List.forall_mem_cons.mpr ⟨hentry.comma_notMem, ih⟩

theorem filterMap_eq (h : ParamEntries ps entries) : entries.filterMap paramOf? = ps := by
  induction h with
  | nil => rfl
  | param htype hname hentry _ ih =>
    rw [List.filterMap_cons_some (paramOf?_of_spaced htype hname hentry), ih]
  | extra hentry hws _ ih => rw [List.filterMap_cons_none (paramOf?_of_countP_lt hentry hws), ih]

end ParamEntries

/-- **Parameter lists are read back.** Whatever blanks stand around the words and commas, wherever `final` stands, and
whatever entries with fewer than two other words there are, the parameters are the ones that were written, in their
order. -/
theorem parseParams_join_entries {ps : List Param} {entries : List Text} (h : ParamEntries ps entries) :
    parseParams (Text.join [','] entries) = ps := by
  by_cases hne : entries = []
  · subst hne
    cases h
    rfl
  · rw [parseParams, Text.pieces_join hne h.comma_notMem, h.filterMap_eq]

/-- Two parameters, written with `final`, with blanks of several kinds and with two entries that declare nothing. -/
theorem parseParams_join_entries_finals :
    ParamEntries [⟨"int", "a"⟩, ⟨"String[]", "b"⟩]
      ["\tfinal int\u3000a ".toList, " final".toList, "String[]\nfinal  b".toList, "x".toList] ∧
    parseParams "\tfinal int\u3000a , final,String[]\nfinal  b,x" = [⟨"int", "a"⟩, ⟨"String[]", "b"⟩] := by
  have hfirst : Spaced ["final", "int", "a"] "\tfinal int\u3000a " :=
    .word ['\t'] (by decide) (by decide) (by decide) (.word [' '] (by decide) (by decide) (by decide)
      (.word ['\u3000'] (by decide) (by decide) (by decide) (.blanks [' '] (by decide))))
  have hfinal : Spaced ["final"] " final" := .word [' '] (by decide) (by decide) (by decide) (.blanks [] (by decide))
  have hsecond : Spaced ["String[]", "final", "b"] "String[]\nfinal  b" :=
    .word [] (by decide) (by decide) (by decide) (.word ['\n'] (by decide) (by decide) (by decide)
      (.word "  " (by decide) (by decide) (by decide) (.blanks [] (by decide))))
  have hlast : Spaced ["x"] "x" := .word [] (by decide) (by decide) (by decide) (.blanks [] (by decide))
  have hentries : ParamEntries [⟨"int", "a"⟩, ⟨"String[]", "b"⟩]
      ["\tfinal int\u3000a ".toList, " final".toList, "String[]\nfinal  b".toList, "x".toList] :=
    .param (k := 1) (m := 0) (n := 0) (by decide) (by decide) hfirst (.extra hfinal (by decide)
      (.param (k := 0) (m := 1) (n := 0) (by decide) (by decide) hsecond (.extra hlast (by decide) .nil)))
  exact ⟨hentries, parseParams_join_entries hentries⟩

end GoDraft
