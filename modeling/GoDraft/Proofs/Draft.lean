import GoDraft.Draft
import GoDraft.Proofs.Body.Cuts
import GoDraft.Proofs.Java.MethodRounds

/-!
# GoDraft — no draft breaks off

A draft is cut out of its source text at byte offsets, and a cut at a wrong offset would break the run off. No cut is
wrong: not in the reading of the outline, nor where bodies are recast. So a blank source text is the only one without
a draft.

* `draft_of_isBlank`, `exists_draft` — the two outcomes of a run;
* `draft_never_fails` — both, with the cuts that are made on the way.
-/

namespace GoDraft

variable (settings : Settings) (reindent : Bool) {source : Text}

theorem draft_of_isBlank (h : source.isBlank = true) :
    ({ settings, reindent } : Drafter).draft source = .error .nothingToTranslate := by
  rw [Drafter.draft, Drafter.run, if_pos h]

theorem exists_draft (h : source.isBlank = false) :
    ∃ out, ({ settings, reindent } : Drafter).draft source = .ok out := by
  obtain ⟨reading, hreading, -⟩ := exists_readOutline source
  rw [Drafter.draft, Drafter.run, if_neg (by rw [h]; exact Bool.false_ne_true)]
  dsimp only
  rw [hreading]
  exact ⟨_, rfl⟩

/-- **No draft breaks off**: under all settings, laid out or not, a source text has a draft unless it is blank, and
then there is nothing to translate. The three searches for declarations make no fault. The one for methods goes
by rounds, and a round leads further on in the text, to a place between characters. Told by byte offsets, neither
the splitting of statements nor the test for a keyword nor the dropping of terminators makes a fault, where a cut
is no fault exactly when its ends are in order, in range and between characters. -/
theorem draft_never_fails (settings : Settings) (reindent : Bool) (source className body line front rest word : Text) :
    ((source.isBlank = true ∧ ({ settings, reindent } : Drafter).draft source = .error .nothingToTranslate) ∨
        (source.isBlank = false ∧ ∃ out, ({ settings, reindent } : Drafter).draft source = .ok out)) ∧
      ((∃ r, findMainBody source = .ok r) ∧ (∃ xs, fieldFindings source = .ok xs) ∧
        ∃ xs, methodFindings source className = .ok xs) ∧
      methodFindings source className = methodRounds source className 0 ∧
      (∀ position, source.isBoundary position = true →
        ∃ r, methodRound source className position = .ok r ∧ ∀ next x?, r = some (next, x?) →
          position < next ∧ next ≤ source.size ∧ source.isBoundary next = true) ∧
      cutStatements body = .ok (Text.bytes (splitStatements body)) ∧
      startsKeywordAt (front ++ rest) front.size word = .ok (startsKeyword front.getLast? rest word) ∧
      cutTerminators line = .ok (dropTerminators line) ∧
      ∀ start stop, (∃ part, source.slice start stop = .ok part) ↔
        start ≤ stop ∧ stop ≤ source.size ∧ source.isBoundary start = true ∧ source.isBoundary stop = true := by
  obtain ⟨main?, hmain, -⟩ := exists_findMainBody source
  obtain ⟨fields, hfields, -⟩ := exists_fieldFindings source
  obtain ⟨methods, hmethods, -⟩ := exists_methodFindings source className
  refine ⟨?_, ⟨⟨main?, hmain⟩, ⟨fields, hfields⟩, methods, hmethods⟩, methodFindings_eq_methodRounds source className,
    fun position => methodRound_progress source className, cutStatements_eq body,
    startsKeywordAt_append front rest word, cutTerminators_eq line, fun start stop => Text.exists_slice_iff⟩
  cases hblank : source.isBlank with
  | true => exact .inl ⟨rfl, draft_of_isBlank settings reindent hblank⟩
  | false => exact .inr ⟨rfl, exists_draft settings reindent hblank⟩

/-- A round that starts in the middle of a text, behind a character of two bytes. -/
theorem draft_never_fails_member :
    Text.isBoundary "class É { void f() {} }" 11 = true ∧
      ∃ r, methodRound "class É { void f() {} }" "É" 11 = .ok r ∧ ∀ next x?, r = some (next, x?) →
        11 < next ∧ next ≤ Text.size "class É { void f() {} }" ∧
          Text.isBoundary "class É { void f() {} }" next = true :=
  have hplace : Text.isBoundary "class É { void f() {} }" 11 = true := by decide
  ⟨hplace, (draft_never_fails {} false "class É { void f() {} }" "É" [] [] [] [] []).2.2.2.1 11 hplace⟩

end GoDraft
