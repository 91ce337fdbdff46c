import GoDraft.Body.Recast
import GoDraft.Go.Functions
import GoDraft.Proofs.Body.Traces
import Mathlib

/-!
# GoDraft — recasting keeps the balance of brackets

Whatever a body holds, balanced or not, its recast form opens as many brackets of a kind more than it
closes as the body does. Every step keeps the balance by itself:

* the two character machines drop and write nothing but blanks and semicolons;
* each rule of the tables is even, and so is the rule for a field;
* a recast declaration loses its type and some blanks.
-/

namespace GoDraft

open Text

variable {b : Bracket}

/-! ## The brackets of a kind -/

/-- The balance of a text hangs on its brackets. -/
theorem balance_trace (t : Text) : balance b (t.trace [b.opening, b.closing]) = t.balance b := by
  rw [balance, balance, trace, List.count_filter (by simp), List.count_filter (by simp)]

theorem balance_eq_of_trace_eq {s t : Text}
    (h : s.trace [b.opening, b.closing] = t.trace [b.opening, b.closing]) : s.balance b = t.balance b := by
  rw [← balance_trace s, h, balance_trace]

theorem lasting_bracket (b : Bracket) : Lasting [b.opening, b.closing] := by
  cases b <;> exact ⟨by decide, by decide⟩

theorem balance_splitStatements (body : Text) : (splitStatements body).balance b = body.balance b :=
  balance_eq_of_trace_eq (trace_splitStatements (lasting_bracket b) body)

theorem balance_stripTerminators (t : Text) : (stripTerminators t).balance b = t.balance b :=
  balance_eq_of_trace_eq (trace_stripTerminators (lasting_bracket b) t)

theorem balance_trimEnd (t : Text) : t.trimEnd.balance b = t.balance b :=
  balance_eq_of_trace_eq (trace_trimEnd (lasting_bracket b) t)

/-! ## Rules -/

/-- What a declaration becomes when its value has no blanks at its end. -/
def declarationRule : Rule :=
  ⟨declarationPattern, [.group 1, .group 2, .group 4, " := ", .group 5]⟩

/-- The rules of all tables. -/
def tableRules : List Rule :=
  libraryRules ++ printRules ++ concatRules ++ controlRules ++ [callRule, returnRule]
    ++ constructionRules ++ [declarationRule]

set_option maxRecDepth 4000 in
theorem even_of_mem_tableRules : ∀ r ∈ tableRules, r.Even b := by
  simp only [tableRules, libraryRules, throwRule, printRules, printRule, concatRules, controlRules,
    ifRule, whileRule, forRule, doRule, untilRule, callRule, returnRule, constructionRules, declaredObjectRule,
    newObjectRule, declarationRule, declarationPattern, List.cons_append, List.nil_append,
    List.forall_mem_cons]
  refine ⟨?_, ?_, ?_, ?_, ?_, ?_, ?_, ?_, ?_, ?_, ?_, ?_, ?_, ?_, ?_, ?_, ?_, ?_, ?_, ?_, ?_, ?_, ?_,
    ?_, ?_, ?_, by simp⟩
  -- each pattern is weighed along its sequence, and then compared with its template
  all_goals
    cases b <;>
    exact ⟨_, _, by
      repeat' first
        | exact .text _
        | exact .group rfl
        | exact .light rfl rfl
        | apply Pattern.Weighs.seq,
      by decide, by decide, by decide, by decide⟩

theorem balance_applyAll_of_forall_mem {rules : List Rule} (h : ∀ r ∈ rules, r ∈ tableRules)
    (t : Text) : (Rule.applyAll rules t).balance b = t.balance b :=
  Rule.balance_applyAll rules (fun r hr => even_of_mem_tableRules r (h r hr)) t

theorem balance_apply_of_mem {r : Rule} (h : r ∈ tableRules) (t : Text) :
    (r.apply t).balance b = t.balance b :=
  (even_of_mem_tableRules r h).balance_apply t

/-! ## Typed declarations -/

theorem balance_recastDeclaration {k : Cursor} {m : Match}
    (hm : declarationPattern.matchAt? k = some m) :
    (recastDeclaration m).balance b = m.span.text.balance b := by
  unfold recastDeclaration
  split
  · rfl
  · have heven : declarationRule.Even b := even_of_mem_tableRules _ (by simp [tableRules])
    rw [← heven.balance_fill hm]
    have hfill : declarationRule.template.fill m =
        m.group 1 ++ (m.group 2 ++ (m.group 4 ++ (" := ".toList ++ (m.group 5 ++ [])))) := rfl
    rw [hfill]
    simp only [balance_append, balance_trimEnd, balance_nil]
    omega

theorem balance_recastDeclarations (t : Text) :
    (recastDeclarations t).balance b = t.balance b :=
  Pattern.replaceAll_measure balance_append (fun _ _ => balance_recastDeclaration) t

/-! ## Fields of the receiver -/

/-- Whether a text has only ASCII letters, digits and underscores. -/
def IsPlainName (name : Text) : Prop := ∀ c ∈ name, Template.isReferenceChar c = true

instance (name : Text) : Decidable (IsPlainName name) :=
  inferInstanceAs (Decidable (∀ c ∈ name, Template.isReferenceChar c = true))

theorem balance_of_isPlainName {name : Text} (h : IsPlainName name) : name.balance b = 0 :=
  balance_eq_zero_of_all h (by cases b <;> decide) (by cases b <;> decide)

theorem toNat_lt_of_isReferenceChar {c : Char} (h : Template.isReferenceChar c = true) :
    c.toNat < 128 := by
  simp only [Template.isReferenceChar, Char.isAlphanum, Char.isAlpha, Char.isUpper, Char.isLower,
    Char.isDigit, Bool.or_eq_true, Bool.and_eq_true, decide_eq_true_eq, beq_iff_eq,
    UInt32.le_iff_toNat_le] at h
  rcases h with ((h | h) | h) | rfl
  · exact Nat.lt_of_le_of_lt h.2 (by decide)
  · exact Nat.lt_of_le_of_lt h.2 (by decide)
  · exact Nat.lt_of_le_of_lt h.2 (by decide)
  · decide

theorem isReferenceChar_toUpper {c : Char} (h : Template.isReferenceChar c = true) :
    Template.isReferenceChar c.toUpper = true := by
  have hall : ∀ n : Fin 128, Template.isReferenceChar (Char.ofNat n) = true →
      Template.isReferenceChar (Char.ofNat n).toUpper = true := by decide
  have hc := hall ⟨c.toNat, toNat_lt_of_isReferenceChar h⟩
  rw [Char.ofNat_toNat] at hc
  exact hc h

theorem isPlainName_fieldName {exported : Bool} {name : Text} (h : IsPlainName name) :
    IsPlainName (fieldName exported name) := by
  unfold fieldName
  split
  · cases name with
    | nil => exact h
    | cons c rest =>
      have hc : Template.isReferenceChar c = true := h c List.mem_cons_self
      show IsPlainName (uppercase c ++ rest)
      rw [uppercase, if_pos (toNat_lt_of_isReferenceChar hc)]
      intro x hx
      rcases List.mem_cons.mp hx with rfl | hx
      · exact isReferenceChar_toUpper hc
      · exact h x (List.mem_cons_of_mem c hx)
  · exact h

/-- A text without a dollar sign spells a template that writes no group. -/
theorem Template.ofTextFrom_of_not_mem {t : Text} (h : '$' ∉ t) :
    (ofTextFrom 0 t).uses = [] ∧ (ofTextFrom 0 t).balance b = t.balance b := by
  induction t with
  | nil => exact ⟨rfl, balance_nil.symm⟩
  | cons c t ih =>
    rw [List.mem_cons, not_or] at h
    obtain ⟨huses, hbalance⟩ := ih h.2
    have hc : ofTextFrom 0 (c :: t) = .text [c] :: ofTextFrom 0 t := by
      rw [ofTextFrom, if_neg (Ne.symm h.1)]
    rw [hc, uses, Template.balance, huses, hbalance, ← balance_cons]
    exact ⟨rfl, rfl⟩

theorem even_fieldAccessRule {exported : Bool} {name : Text} (h : IsPlainName name) :
    (fieldAccessRule receiver exported name).Even b := by
  have hfield : IsPlainName (fieldName exported name) := isPlainName_fieldName h
  have hdollar : '$' ∉ receiver ++ "." ++ fieldName exported name := by
    rw [List.mem_append, not_or]
    refine ⟨by decide, fun hmem => ?_⟩
    have hsign := hfield _ hmem
    revert hsign
    decide
  obtain ⟨huses, hbalance⟩ := Template.ofTextFrom_of_not_mem (b := b) hdollar
  have hthis : (receiver ++ "." : Text).balance b = 0 ∧ balance b "this.".toList = 0 := by
    cases b <;> decide
  refine ⟨_, _, (((Pattern.Weighs.light rfl rfl).seq (.text _)).seq (.text _)).seq (.light rfl rfl),
    ?_, List.nodup_nil, ?_, ?_⟩
  · show 0 + balance b "this.".toList + name.balance b + 0 = Template.balance b (Template.ofText _)
    rw [Template.ofText, hbalance, balance_append, hthis.1, hthis.2, balance_of_isPlainName h,
      balance_of_isPlainName hfield]
    rfl
  · show 0 ∉ (Template.ofText _).uses
    rw [Template.ofText, huses]
    exact List.not_mem_nil
  · show ((Template.ofText _).uses.filter _).Perm _
    rw [Template.ofText, huses]
    exact List.Perm.nil

/-! ## Bodies -/

theorem Recaster.balance_recast_of_even {r : Recaster} (h : ∀ rule ∈ r.fieldAccess, rule.Even b)
    (body : Text) : (r.recast body).balance b = body.balance b := by
  have hlibrary (t : Text) :
      balance b (if r.libraryCalls then Rule.applyAll libraryRules t else t) = t.balance b := by
    split
    · exact balance_applyAll_of_forall_mem (by simp +contextual [tableRules]) t
    · rfl
  unfold recast
  rw [balance_stripTerminators, balance_applyAll_of_forall_mem (by simp +contextual [tableRules]),
    balance_apply_of_mem (by simp [tableRules]), balance_apply_of_mem (by simp [tableRules]),
    balance_applyAll_of_forall_mem (by simp +contextual [tableRules]), Rule.balance_applyAll _ h,
    balance_recastDeclarations, balance_applyAll_of_forall_mem (by simp +contextual [tableRules]),
    balance_applyAll_of_forall_mem (by simp +contextual [tableRules]), hlibrary, balance_splitStatements]

/-- **Recasting keeps the balance of brackets.** For each kind of bracket a recast body opens as many
more than it closes as the body does, without a receiver as well as with the receiver of methods and
any plainly named fields. -/
theorem balance_recast (b : Bracket) (libraryCalls : Bool) (body : Text) :
    balance b (({ libraryCalls } : Recaster).recast body) = body.balance b ∧
    ∀ (exported : Bool) (names : List Text), (∀ name ∈ names, IsPlainName name) →
      balance b ((({ libraryCalls } : Recaster).withReceiver receiver exported names).recast body) =
        body.balance b := by
  constructor
  · exact Recaster.balance_recast_of_even (fun _ hrule => absurd hrule List.not_mem_nil) body
  · intro exported names hnames
    apply Recaster.balance_recast_of_even
    intro rule hrule
    obtain ⟨name, hname, rfl⟩ := List.mem_map.mp hrule
    exact even_fieldAccessRule (hnames name hname)

/-- A body that closes one block too many still does so afterwards. -/
theorem balance_recast_extra_brace :
    (∀ name ∈ ["total".toList], IsPlainName name) ∧
    balance .curly ((({ libraryCalls := true } : Recaster).withReceiver receiver true
      ["total"]).recast "do \x7b this.total = s.charAt(i); \x7d while (a < b); \x7d") = -1 := by
  refine ⟨by decide, ?_⟩
  rw [(balance_recast .curly true _).2 true _ (by decide)]
  decide

end GoDraft
