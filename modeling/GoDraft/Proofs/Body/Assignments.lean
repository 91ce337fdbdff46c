import GoDraft.Proofs.Body.ReceiverJoins
import GoDraft.Proofs.Body.ReceiverLoops
import GoDraft.Proofs.Body.Stages
import GoDraft.Proofs.Body.Traces

/-!
# GoDraft — recasting assigns to the receiver only where the body does

What each step of recasting writes can be put in the place of what it reads: putting statements on lines, the rules
one after another, dropping terminators, and indenting. So the receiver is assigned to in the lines of a method only
where it is assigned to in the body they come from.

* `Pass.Spares`, `Pass.assigns_of_run` — what one pass spares, a run of passes spares;
* `spares_fieldAccessRule` — a field of the receiver is not the receiver;
* `Recaster.assigns_of_recast` — recasting as a whole;
* `assigns_of_bodyLines` — the lines of a body, indented.
-/

namespace GoDraft

open Text

/-! ## Passes -/

namespace Pass

/-- A pass does not assign to the receiver. -/
def Spares (f : Pass) : Prop := ∀ t, Assigns false receiver (f.apply t) → Assigns false receiver t

theorem spares_of_covers {f : Pass}
    (h : ∀ k m, f.pattern.matchAt? k = some m → Covers false false m.span.text (f.write m)) : f.Spares :=
  fun t => (covers_apply id h t).assigns

/-- **What every pass spares, a run of passes spares.** -/
theorem assigns_of_run {passes : List Pass} (h : ∀ f ∈ passes, f.Spares) {t : Text}
    (hrun : Assigns false receiver (run passes t)) : Assigns false receiver t := by
  induction passes generalizing t with
  | nil => exact hrun
  | cons f passes ih =>
    rw [List.forall_mem_cons] at h
    exact h.1 t (ih h.2 hrun)

end Pass

theorem map_fst_tameRules :
    tameRules.map Prod.fst = plainLibraryRules ++ printRules ++ [doRule, ifRule, whileRule, callRule, newObjectRule] :=
  rfl

theorem spares_tameRules :
    ((∀ r ∈ plainLibraryRules, r.pass.Spares) ∧ ∀ r ∈ printRules, r.pass.Spares) ∧
      ∀ r ∈ [doRule, ifRule, whileRule, callRule, newObjectRule], r.pass.Spares := by
  rw [← List.forall_mem_append, ← List.forall_mem_append, ← map_fst_tameRules]
  intro r hr
  obtain ⟨x, hx, rfl⟩ := List.mem_map.mp hr
  exact Pass.spares_of_covers fun k m hm => (isTame_of_mem_tameRules x hx).covers hm

theorem isWord_fieldName {exported : Bool} {name : Text} (h : IsWord name) : IsWord (fieldName exported name) := by
  unfold fieldName
  split
  · cases name with
    | nil => exact h
    | cons c rest =>
      rw [IsWord, List.forall_mem_cons] at h
      show ∀ d ∈ uppercase c ++ rest, _
      rw [List.forall_mem_append]
      exact ⟨fun d hd => isWordChar_of_mem_uppercase h.1 hd, h.2⟩
  · exact h

/-- A field of the receiver goes on behind its name, as a field of `this` does. -/
theorem spares_fieldAccessRule {exported : Bool} {name : Text} (h : IsWord name) :
    (fieldAccessRule receiver exported name).pass.Spares := by
  have hthis : Words false "this.".toList := by decide
  have hreceiver : Words false (receiver ++ ".".toList) := by decide
  refine Pass.spares_of_covers fun ⟨b, offset, t⟩ m hm => ?_
  have hmatch : (fieldAccessRule receiver exported name).pattern.matchAt? ⟨b, offset, t⟩ = some m := hm
  have htext := (of_matchAt?_fieldAccessRule hmatch).2
  have hfill : (fieldAccessRule receiver exported name).pass.write m =
      receiver ++ ".".toList ++ fieldName exported name := (fill_fieldAccessRule h m).trans (by simp)
  rw [htext, hfill]
  exact (hthis.append_word h).covers (hreceiver.append_word (isWord_fieldName h))

/-! ## Statements on lines -/

theorem isLoose_of_isGap {p : Bool} {c : Char} (h : isGap c = true) : isLoose p c = true :=
  isLoose_of_isBlank (isBlank_of_isGap h)

theorem breaks_covers (p : Bool) : Breaks (Covers p p) where
  refl := .refl id
  trans := .trans
  append := .append
  gap h := .drop (by simpa using isLoose_of_isGap h)
  behind := by cases p <;> decide
  before := by cases p <;> decide

theorem sheds_covers (p : Bool) : Sheds (Covers p p) where
  refl := .refl id
  trans := .trans
  append := .append
  blank h := .drop (by simpa using isLoose_of_isBlank h)
  semicolon := by cases p <;> decide
  newline := by cases p <;> decide

/-! ## Recasting -/

namespace Recaster

theorem assigns_of_libraryRules {t : Text} (h : Assigns false receiver (Rule.applyAll libraryRules t)) :
    Assigns true receiver t := by
  have hlater : ∀ f ∈ (plainLibraryRules ++ [throwRule]).map Rule.pass, f.Spares := by
    rw [List.forall_mem_map, List.forall_mem_append, List.forall_mem_singleton]
    exact ⟨spares_tameRules.1.1, Pass.spares_of_covers fun _ _ => covers_throwRule⟩
  -- the comparison of objects comes first, and only it leaves out a parenthesis
  rw [libraryRules_eq, ← Pass.run_map_pass, List.map_cons, Pass.run_cons] at h
  have hfirst : Covers true false t (equalsRule.pass.apply t) :=
    Pass.covers_apply (by simp) (fun _ _ => covers_equalsRule) t
  exact hfirst.assigns (Pass.assigns_of_run hlater h)

theorem assigns_of_callStages (r : Recaster) {t : Text} (h : Assigns false receiver (Stage.run r.callStages t)) :
    Assigns r.libraryCalls receiver t := by
  have hprint : ∀ f ∈ printRules.map Rule.pass, f.Spares := by
    rw [List.forall_mem_map]
    exact spares_tameRules.1.2
  have hpasses (rules : List Rule) : (rules.map Rule.stage).map Stage.pass = rules.map Rule.pass := List.map_map
  rw [callStages, Stage.run, hpasses, List.map_append, Pass.run_append] at h
  have hlibrary := Pass.assigns_of_run hprint h
  rw [Pass.run_map_pass] at hlibrary
  cases hcalls : r.libraryCalls with
  | false =>
    rw [hcalls] at hlibrary
    exact hlibrary
  | true =>
    rw [hcalls] at hlibrary
    exact assigns_of_libraryRules hlibrary

theorem spares_statementStages (r : Recaster) (hr : ∀ rule ∈ r.fieldAccess, rule.pass.Spares) :
    ∀ stage ∈ r.statementStages, stage.pass.Spares := by
  have htame := spares_tameRules.2
  simp only [List.forall_mem_cons] at htame
  obtain ⟨hdo, hif, hwhile, hcall, hnewObject, -⟩ := htame
  have hjoin : ∀ rule ∈ concatRules, rule.pass.Spares := by
    rw [concatRules_eq, List.forall_mem_cons, List.forall_mem_singleton]
    exact ⟨fun _ => assigns_of_joinRight, Pass.spares_of_covers fun _ _ => covers_joinLeftRule⟩
  have hdeclaration : declarationPass.Spares := Pass.spares_of_covers fun _ _ => covers_recastDeclaration
  have hcontrol : ∀ rule ∈ controlRules, rule.pass.Spares := by
    simp only [controlRules, List.forall_mem_cons]
    exact ⟨hif, hwhile, Pass.spares_of_covers fun _ _ => covers_forRule, hdo,
      Pass.spares_of_covers fun _ _ => covers_untilRule, by simp⟩
  have hnew : ∀ rule ∈ constructionRules, rule.pass.Spares := by
    rw [constructionRules, List.forall_mem_cons, List.forall_mem_singleton]
    exact ⟨Pass.spares_of_covers fun _ _ => covers_declaredObjectRule, hnewObject⟩
  simp only [statementStages, List.forall_mem_append, List.forall_mem_cons, List.forall_mem_map]
  exact ⟨hjoin, hdeclaration, hr, hcontrol, hcall, Pass.spares_of_covers fun _ _ => covers_returnRule, hnew⟩

/-- **Recasting assigns to the receiver only where the body does.** -/
theorem assigns_of_recast (r : Recaster) (hr : ∀ rule ∈ r.fieldAccess, rule.pass.Spares) {body : Text}
    (h : Assigns false receiver (r.recast body)) : Assigns r.libraryCalls receiver body := by
  rw [recast_eq_run_stages] at h
  have hrun := ((sheds_covers false).stripTerminators _).assigns h
  rw [Stage.run_append] at hrun
  have hstatements := Pass.assigns_of_run (List.forall_mem_map.mpr (r.spares_statementStages hr)) hrun
  exact ((breaks_covers r.libraryCalls).splitStatements body).assigns (r.assigns_of_callStages hstatements)

end Recaster

/-! ## Lines -/

section Lines

variable {p : Bool}

theorem join_newline_append : ∀ {ts : List Text}, ts ≠ [] → join "\n" ts ++ ['\n'] = ts.flatMap (· ++ ['\n'])
  | [t], _ => by simp [join]
  | t :: u :: ts, _ => by
    rw [join_cons (List.cons_ne_nil u ts), List.append_assoc, join_newline_append (List.cons_ne_nil u ts),
      List.flatMap_cons]
    rfl

theorem covers_dropLastChar (t : Text) : Covers p p t (dropLastChar '\r' t) := by
  rw [dropLastChar]
  split
  · rename_i hlast
    obtain ⟨front, rfl⟩ := List.getLast?_eq_some_iff.mp hlast
    have hdrop : Covers p p ['\r'] [] := .drop (by cases p <;> decide)
    rw [List.dropLast_concat]
    simpa using (Covers.refl id front).append hdrop
  · exact .refl id t

theorem covers_linesOfPieces : ∀ ps : List Text,
    Covers p p (ps.flatMap (· ++ ['\n'])) ((linesOfPieces ps).flatMap (· ++ ['\n']))
  | [] => .refl id []
  | [t] => by
    rw [linesOfPieces]
    split
    · rename_i hempty
      rw [List.isEmpty_iff.mp hempty]
      cases p <;> decide
    · exact .refl id _
  | t :: u :: ts => by
    rw [linesOfPieces_cons (List.cons_ne_nil u ts), List.flatMap_cons, List.flatMap_cons]
    exact ((covers_dropLastChar t).append (.refl id _)).append (covers_linesOfPieces (u :: ts))

/-- A line without its outer blanks, and with the blanks before the next one. -/
theorem covers_trim (t : Text) : Covers p p (t ++ ['\n']) (t.trim ++ '\n' :: indent) := by
  have hnext : Covers p p ['\n'] ('\n' :: indent) := by cases p <;> decide
  obtain ⟨lead, trail, ht, hlead, htrail, -⟩ := exists_trim t
  have hlead' : Covers p p lead [] := .drop fun c hc => isLoose_of_isBlank (hlead c hc)
  have htrail' : Covers p p trail [] := .drop fun c hc => isLoose_of_isBlank (htrail c hc)
  have hline := hlead'.append ((Covers.refl id t.trim).append htrail')
  rw [← ht, List.nil_append, List.append_nil] at hline
  exact hline.append hnext

theorem covers_trimmed (ls : List Text) : Covers p p (ls.flatMap (· ++ ['\n']))
    (((ls.map trim).filter fun line => !line.isEmpty).flatMap (· ++ '\n' :: indent)) := by
  induction ls with
  | nil => exact .refl id []
  | cons t ls ih =>
    rw [List.flatMap_cons, List.map_cons]
    by_cases hempty : t.trim = []
    · have hdrop : Covers p p ('\n' :: indent) [] := by cases p <;> decide
      have hline := covers_trim (p := p) t
      rw [hempty, List.nil_append] at hline
      rw [List.filter_cons_of_neg (by simp [hempty])]
      exact (hline.trans hdrop).append ih
    · rw [List.filter_cons_of_pos (by simpa using hempty), List.flatMap_cons]
      exact (covers_trim t).append ih

/-- Blanks before each line are blanks behind the line before it. -/
theorem flatMap_indent_append (ls : List Text) :
    ls.flatMap (fun line => indent ++ line ++ "\n".toList) ++ indent = indent ++ ls.flatMap (· ++ '\n' :: indent) := by
  induction ls with
  | nil => simp
  | cons t ls ih =>
    rw [List.flatMap_cons, List.append_assoc, ih, List.flatMap_cons]
    simp

/-- The lines of a body assign to the receiver only where the body does. -/
theorem assigns_of_bodyLines {t : Text} (h : Assigns p receiver (bodyLines t)) : Assigns p receiver t := by
  have hlines : Covers p p (t ++ ['\n'])
      (((t.lines.map trim).filter fun line => !line.isEmpty).flatMap (· ++ '\n' :: indent)) := by
    have hjoin : join "\n" (t.pieces '\n') = t := join_pieces t
    have hpieces := join_newline_append (pieces_ne_nil '\n' t)
    rw [hjoin] at hpieces
    rw [hpieces]
    exact (covers_linesOfPieces _).trans (covers_trimmed _)
  rw [← isCaught_run_iff] at h ⊢
  -- the machine is caught as well if blanks follow, and begins anew behind those before the first line
  have hindent : ∀ (p : Bool) (q : Watch), q.isCaught = true → (Watch.run p q indent).isCaught = true := by decide
  have hnewline : ∀ (p : Bool) (q : Watch), (Watch.run p q ['\n']).isCaught = true → q.isCaught = true := by decide
  have hfirst : ∀ p : Bool, Watch.run p .free indent = .free := by decide
  have hcaught := hindent p _ h
  rw [← Watch.run_append, bodyLines, flatMap_indent_append, Watch.run_append, hfirst] at hcaught
  apply hnewline p
  rw [← Watch.run_append]
  exact Watch.isCaught_of_under (hlines .free .free (Watch.under_refl _)) hcaught

end Lines

end GoDraft
