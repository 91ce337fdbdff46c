import GoDraft.Proofs.Body.Balance
import GoDraft.Proofs.Body.Passes
import GoDraft.Proofs.Body.Traces
import GoDraft.Proofs.Pattern.Found
import GoDraft.Proofs.Pattern.Parts

/-!
# GoDraft — recasting and the nesting of brackets

Brackets are nested when every one is closed by its own kind, the last opened first. Most passes of recasting
leave the brackets of a text as they are. A few drop the parentheses around a group or write others for
them, and the group ends at the first closing parenthesis that fits the pattern, which need not be the one
that belongs there: `new Point(f(1), 2)` is taken for `new Point(f(1)` and an argument `f(1`.

So recasting keeps the nesting of a text without double quotes where such groups are units: a group whose
parentheses are replaced is nested by itself, and a group whose parentheses are dropped leaves at most
parentheses open.

* `nestFrom`, `Nested` — reading brackets with a stack;
* `NestsAs` — one text can stand for another wherever brackets are nested;
* `Trade`, `tradedPasses` — what each pass does with the parentheses around a group;
* `Pass.Keeps` and its lemmas — what the passes do to brackets;
* `nested_recast` — the nesting of a recast body.
-/

namespace GoDraft

open Text

/-! ## Brackets with a stack -/

/-- The kind of an opening bracket. -/
def Bracket.opens? (c : Char) : Option Bracket :=
  if c = '(' then some .round else if c = '[' then some .square else if c = '\x7b' then some .curly else none

/-- The kind of a closing bracket. -/
def Bracket.closes? (c : Char) : Option Bracket :=
  if c = ')' then some .round else if c = ']' then some .square else if c = '\x7d' then some .curly else none

/-- The open brackets behind a character, innermost first; there are none if it closes a bracket that is
not the innermost. -/
def nestStep (stack : List Bracket) (c : Char) : Option (List Bracket) :=
  match Bracket.opens? c with
  | some b => some (b :: stack)
  | none =>
    match Bracket.closes? c with
    | some b => if stack.head? = some b then some stack.tail else none
    | none => some stack

/-- The open brackets behind a text, from those before it on. -/
def nestFrom (stack : List Bracket) (t : Text) : Option (List Bracket) := t.foldlM nestStep stack

/-- The brackets of a text are nested. -/
def Nested (t : Text) : Prop := nestFrom [] t = some []

instance (t : Text) : Decidable (Nested t) := inferInstanceAs (Decidable (nestFrom [] t = some []))

section Stack

variable {stack stack' : List Bracket} {s t : Text} {c : Char}

@[simp] theorem nestFrom_nil : nestFrom stack [] = some stack := rfl

theorem nestFrom_cons : nestFrom stack (c :: t) = (nestStep stack c).bind fun st => nestFrom st t := rfl

theorem nestFrom_append : nestFrom stack (s ++ t) = (nestFrom stack s).bind fun st => nestFrom st t :=
  List.foldlM_append

theorem nestStep_append (h : nestStep stack c = some stack') (below : List Bracket) :
    nestStep (stack ++ below) c = some (stack' ++ below) := by
  unfold nestStep at h ⊢
  cases hopen : Bracket.opens? c with
  | some b =>
    rw [hopen] at h
    obtain rfl := Option.some.inj h
    rfl
  | none =>
    rw [hopen] at h
    cases hclose : Bracket.closes? c with
    | none =>
      rw [hclose] at h
      obtain rfl := Option.some.inj h
      rfl
    | some b =>
      rw [hclose] at h
      cases stack with
      | nil => cases h
      | cons b' stack =>
        simp only [List.head?_cons, Option.some.injEq, List.tail_cons] at h
        split at h
        · rename_i hb
          obtain rfl := Option.some.inj h
          simp [hb]
        · cases h

/-- What is open below stays as it is. -/
theorem nestFrom_frame (h : nestFrom stack t = some stack') (below : List Bracket) :
    nestFrom (stack ++ below) t = some (stack' ++ below) := by
  induction t generalizing stack with
  | nil =>
    obtain rfl := Option.some.inj h
    rfl
  | cons c t ih =>
    rw [nestFrom_cons, Option.bind_eq_some_iff] at h
    obtain ⟨st, hstep, hrest⟩ := h
    rw [nestFrom_cons, nestStep_append hstep below]
    exact ih hrest

/-- A text whose brackets are nested leaves every stack as it is. -/
theorem Nested.nestFrom_eq (h : Nested t) (stack : List Bracket) : nestFrom stack t = some stack :=
  nestFrom_frame h stack

end Stack

/-! ## Brackets in traces -/

/-- The characters that are followed: the brackets, and the double quote. -/
def nestSigns : Text := "()[]\x7b\x7d\""

theorem nestStep_of_not_mem {c : Char} (hc : c ∉ nestSigns) (stack : List Bracket) :
    nestStep stack c = some stack := by
  have hne : ∀ d ∈ nestSigns, c ≠ d := by
    rintro d hd rfl
    exact hc hd
  have hopen : Bracket.opens? c = none := by
    rw [Bracket.opens?, if_neg (hne '(' (by decide)), if_neg (hne '[' (by decide)),
      if_neg (hne '\x7b' (by decide))]
  have hclose : Bracket.closes? c = none := by
    rw [Bracket.closes?, if_neg (hne ')' (by decide)), if_neg (hne ']' (by decide)),
      if_neg (hne '\x7d' (by decide))]
  rw [nestStep, hopen, hclose]

theorem nestFrom_trace (stack : List Bracket) (t : Text) :
    nestFrom stack (t.trace nestSigns) = nestFrom stack t := by
  induction t generalizing stack with
  | nil => rfl
  | cons c t ih =>
    by_cases hc : c ∈ nestSigns
    · have htrace : trace (c :: t) nestSigns = c :: trace t nestSigns :=
        List.filter_cons_of_pos (List.elem_iff.mpr hc)
      rw [htrace, nestFrom_cons, nestFrom_cons]
      congr 1
      funext st
      exact ih st
    · have htrace : trace (c :: t) nestSigns = trace t nestSigns :=
        List.filter_cons_of_neg fun hmem => hc (List.elem_iff.mp hmem)
      rw [htrace, ih, nestFrom_cons, nestStep_of_not_mem hc]
      rfl

/-! ## Standing for another text -/

/-- Wherever the brackets of the first text are nested, so are those of the second, and they leave the same
open. -/
def NestsAs (s s' : Text) : Prop :=
  ∀ stack stack', nestFrom stack s = some stack' → nestFrom stack s' = some stack'

/-- The second text can stand for the first where there are no double quotes, and brings none itself. -/
def StandsFor (s s' : Text) : Prop := '"' ∉ s → '"' ∉ s' ∧ NestsAs s s'

section StandsFor

variable {s s' t t' : Text}

theorem StandsFor.refl (s : Text) : StandsFor s s := fun h => ⟨h, fun _ _ hs => hs⟩

theorem StandsFor.trans (h : StandsFor s s') (h' : StandsFor s' t) : StandsFor s t := by
  intro hs
  obtain ⟨hs', hnest⟩ := h hs
  obtain ⟨ht, hnest'⟩ := h' hs'
  exact ⟨ht, fun stack stack' hstack => hnest' stack stack' (hnest stack stack' hstack)⟩

theorem NestsAs.append (h : NestsAs s s') (h' : NestsAs t t') : NestsAs (s ++ t) (s' ++ t') := by
  intro stack stack' hstack
  rw [nestFrom_append, Option.bind_eq_some_iff] at hstack
  obtain ⟨st, hs, ht⟩ := hstack
  rw [nestFrom_append, h stack st hs]
  exact h' st stack' ht

theorem StandsFor.append (h : StandsFor s s') (h' : StandsFor t t') : StandsFor (s ++ t) (s' ++ t') := by
  intro hquote
  rw [List.mem_append, not_or] at hquote
  obtain ⟨hs', hnest⟩ := h hquote.1
  obtain ⟨ht', hnest'⟩ := h' hquote.2
  refine ⟨?_, hnest.append hnest'⟩
  rw [List.mem_append, not_or]
  exact ⟨hs', ht'⟩

/-- Whether one text can stand for another hangs on their traces. -/
theorem standsFor_of_trace (h : StandsFor (s.trace nestSigns) (s'.trace nestSigns)) : StandsFor s s' := by
  have hmem : ∀ {u : Text}, '"' ∈ u.trace nestSigns ↔ '"' ∈ u := mem_trace (by decide)
  unfold StandsFor NestsAs at h ⊢
  simp only [nestFrom_trace, hmem] at h
  exact h

theorem standsFor_of_trace_eq (h : s'.trace nestSigns = s.trace nestSigns) : StandsFor s s' := by
  apply standsFor_of_trace
  rw [h]
  exact .refl _

end StandsFor

/-! ## Units -/

/-- Behind a text that begins with none open, nothing but parentheses are open. -/
def LeavesRound (t : Text) : Prop := (nestFrom [] t).any (List.all · (· == .round)) = true

instance (t : Text) : Decidable (LeavesRound t) := inferInstanceAs (Decidable (_ = true))

section Units

variable {u : Text}

theorem LeavesRound.exists_replicate (h : LeavesRound u) :
    ∃ n, nestFrom [] u = some (List.replicate n .round) := by
  unfold LeavesRound at h
  cases hu : nestFrom [] u with
  | none =>
    rw [hu] at h
    cases h
  | some stack =>
    rw [hu, Option.any_some, List.all_eq_true] at h
    refine ⟨stack.length, congrArg some ?_⟩
    rw [List.eq_replicate_iff]
    exact ⟨rfl, fun b hb => beq_iff_eq.mp (h b hb)⟩

/-- Parentheses may be dropped around a text that leaves only parentheses open: the one that is missing at
the start is made up for by one that stays open. -/
theorem nestsAs_drop (h : LeavesRound u) : NestsAs ('(' :: (u ++ [')'])) u := by
  obtain ⟨n, hn⟩ := h.exists_replicate
  intro stack stack' hstack
  have hinside : nestFrom (.round :: stack) u = some (.round :: (List.replicate n .round ++ stack)) := by
    have hframe := nestFrom_frame hn (.round :: stack)
    rw [List.nil_append] at hframe
    rw [hframe, ← List.singleton_append, ← List.append_assoc, ← List.replicate_succ', List.replicate_succ]
    rfl
  have hwhole : nestFrom stack ('(' :: (u ++ [')'])) = some (List.replicate n .round ++ stack) := by
    show nestFrom (.round :: stack) (u ++ [')']) = _
    rw [nestFrom_append, hinside]
    rfl
  rw [hwhole] at hstack
  rw [← hstack]
  exact nestFrom_frame hn stack

theorem nested_append {t : Text} (hu : Nested u) (ht : Nested t) : Nested (u ++ t) := by
  rw [Nested, nestFrom_append, hu]
  exact ht

theorem nested_wrap (h : Nested u) (b : Bracket) : Nested (b.opening :: (u ++ [b.closing])) := by
  have hopen : nestStep [] b.opening = some [b] := by cases b <;> rfl
  have hclose : nestStep [b] b.closing = some [] := by cases b <;> rfl
  rw [Nested, nestFrom_cons, hopen, Option.bind_some, nestFrom_append, h.nestFrom_eq [b], Option.bind_some,
    nestFrom_cons, hclose]
  rfl

theorem nestsAs_of_nested {s s' : Text} (hs : Nested s) (hs' : Nested s') : NestsAs s s' := by
  intro stack stack' hstack
  rw [hs.nestFrom_eq] at hstack
  rw [← hstack]
  exact hs'.nestFrom_eq stack

/-- Parentheses may be replaced by braces around a nested text. -/
theorem nestsAs_replace (h : Nested u) : NestsAs ('(' :: (u ++ [')'])) ('\x7b' :: (u ++ ['\x7d'])) :=
  nestsAs_of_nested (nested_wrap h .round) (nested_wrap h .curly)

/-- A closing brace may go from the front of a nested text to its end. -/
theorem nestsAs_closeLast (h : Nested u) : NestsAs ('\x7d' :: u) (u ++ ['\x7d']) := by
  intro stack stack' hstack
  rw [nestFrom_cons, Option.bind_eq_some_iff] at hstack
  obtain ⟨st, hstep, hrest⟩ := hstack
  rw [h.nestFrom_eq] at hrest
  rw [nestFrom_append, h.nestFrom_eq, Option.bind_some, nestFrom_cons, hstep]
  exact hrest

end Units

/-! ## What the passes do -/

/-- What a pass does with the parentheses around a group. -/
inductive Trade where
  /-- Nothing, or there is no such group. -/
  | none
  /-- It drops them. -/
  | drops (index : Nat)
  /-- It writes other brackets for them, or moves a brace from before them to behind them. -/
  | replaces (index : Nat)

/-- Whether the group of a match is a unit, as the pass needs it. -/
def Trade.Allows : Trade → Match → Prop
  | .none, _ => True
  | .drops index, m => LeavesRound (m.group index)
  | .replaces index, m => Nested (m.group index)

instance (k : Trade) (m : Match) : Decidable (k.Allows m) :=
  match k with
  | .none => isTrue trivial
  | .drops index => inferInstanceAs (Decidable (LeavesRound (m.group index)))
  | .replaces index => inferInstanceAs (Decidable (Nested (m.group index)))

/-- What a pass writes can stand for the match, where the group is a unit. -/
def Pass.Keeps (k : Trade) (p : Pass) : Prop :=
  ∀ (cursor : Cursor) (m : Match), p.pattern.matchAt? cursor = some m → k.Allows m →
    StandsFor m.span.text (p.write m)

namespace Pass.Keeps

variable {r : Rule}

/-- A rule with one trail leaves brackets as they are. -/
theorem same (trail : Trail) (hr : r.Trails nestSigns trail trail) : r.pass.Keeps .none := by
  intro cursor m hm _
  obtain ⟨g, -, hbefore, hafter⟩ := hr.trace_eq hm
  exact standsFor_of_trace_eq (hafter.trans hbefore.symm)

/-- A rule that moves no group and has brackets of its own writes nested ones for nested ones. -/
theorem fixed {before after : Text} {k : Trade}
    (hr : r.Trails nestSigns (before.map .char) (after.map .char)) (h : StandsFor before after) :
    r.pass.Keeps k := by
  intro cursor m hm _
  obtain ⟨g, -, hbefore, hafter⟩ := hr.trace_eq hm
  rw [Trail.read_map_char] at hbefore hafter
  apply standsFor_of_trace
  rw [hbefore, show r.pass.write m = r.template.fill m from rfl, hafter]
  exact h

/-- A rule with a group between brackets of its own, by what it does to the text of the group. -/
theorem around (front back front' back' : Text) {index : Nat} {k : Trade}
    (hr : r.Trails nestSigns (front.map .char ++ .group (index + 1) :: back.map .char)
      (front'.map .char ++ .group (index + 1) :: back'.map .char))
    (hquote : '"' ∉ front' ++ back')
    (h : ∀ m : Match, k.Allows m → NestsAs (front ++ (m.group (index + 1) ++ back))
      (front' ++ (m.group (index + 1) ++ back'))) : r.pass.Keeps k := by
  intro cursor m hm hallows
  obtain ⟨g, hgroup, hbefore, hafter⟩ := hr.trace_eq hm
  rw [Trail.read_append, Trail.read_group, Trail.read_map_char, Trail.read_map_char, ← hgroup] at hbefore hafter
  have hnest := h m hallows
  unfold NestsAs at hnest
  simp only [nestFrom_append] at hnest
  apply standsFor_of_trace
  rw [hbefore, show r.pass.write m = r.template.fill m from rfl, hafter]
  intro hfree
  simp only [List.mem_append, not_or] at hfree hquote
  refine ⟨?_, ?_⟩
  · simp only [List.mem_append, not_or]
    exact ⟨hquote.1, hfree.2.1, hquote.2⟩
  · unfold NestsAs
    simp only [nestFrom_append, nestFrom_trace]
    exact hnest

end Pass.Keeps

/-! ## The rules one by one -/

/-- What the library rules do with the parentheses around a group. -/
def libraryTrades : List Trade := .drops 2 :: List.replicate 10 .none

/-- What the control rules do. -/
def controlTrades : List Trade := [.drops 1, .drops 1, .none, .none, .replaces 1]

/-- What the rules for new objects do. -/
def constructionTrades : List Trade := [.replaces 4, .replaces 2]

/-- Parentheses around nothing that is followed. -/
def emptyParens : Trail := [.char '(', .char ')']

/-- Parentheses around a group. -/
def parensAround (index : Nat) : Trail := [.char '(', .group index, .char ')']

theorem nestsAs_of_drops {index : Nat} {m : Match} (h : (Trade.drops index).Allows m) (back : Text) :
    NestsAs ("(".toList ++ (m.group index ++ (')' :: back))) ([] ++ (m.group index ++ back)) := by
  have hdrop := (nestsAs_drop h).append (fun _ _ hs => hs : NestsAs back back)
  rw [List.cons_append, List.append_assoc] at hdrop
  exact hdrop

theorem nestsAs_of_replaces {index : Nat} {m : Match} (h : (Trade.replaces index).Allows m) :
    NestsAs ("(".toList ++ (m.group index ++ ")".toList))
      ("\x7b".toList ++ (m.group index ++ "\x7d".toList)) :=
  nestsAs_replace h

/-- The end of a loop with its condition last: the brace before the condition goes behind a block of its
own. -/
theorem nestsAs_until {index : Nat} {m : Match} (h : (Trade.replaces index).Allows m) :
    NestsAs ("\x7d(".toList ++ (m.group index ++ ")".toList))
      ("(".toList ++ (m.group index ++ ")\x7b\x7d\x7d".toList)) := by
  have hblock : Nested ('(' :: (m.group index ++ [')']) ++ "\x7b\x7d".toList) :=
    nested_append (nested_wrap h .round) (by decide)
  intro stack stack' hstack
  have hstack' : nestFrom stack ('\x7d' :: ('(' :: (m.group index ++ [')']) ++ "\x7b\x7d".toList)) =
      some stack' := by
    rw [← List.cons_append, nestFrom_append]
    rw [show nestFrom stack ('\x7d' :: '(' :: (m.group index ++ [')'])) = some stack' from hstack]
    exact Nested.nestFrom_eq (by decide) stack'
  have hlast := nestsAs_closeLast hblock stack stack' hstack'
  rw [List.cons_append, List.append_assoc, List.cons_append, List.append_assoc] at hlast
  exact hlast

set_option maxRecDepth 4000 in
theorem keeps_libraryRules : ∀ x ∈ libraryRules.zip libraryTrades, x.1.pass.Keeps x.2 := by
  have hsquare : StandsFor "()" "[]" := fun _ => ⟨by decide, nestsAs_of_nested (by decide) (by decide)⟩
  simp only [libraryRules, throwRule, libraryTrades, List.replicate, List.zip_cons_cons, List.zip_nil_left,
    List.forall_mem_cons]
  refine ⟨.around "(" ")" [] [] ?_ (by decide) fun m h => nestsAs_of_drops h [], .same emptyParens ?_,
    .fixed ?_ hsquare, .same emptyParens ?_, .same emptyParens ?_, .fixed ?_ hsquare, .fixed ?_ hsquare,
    .same (parensAround 1) ?_, .same (parensAround 1) ?_, .same (parensAround 1) ?_,
    .same (parensAround 2) ?_, by simp⟩
  all_goals
    exact ⟨_, by
      repeat' first
        | exact .text _
        | exact .group rfl
        | apply Pattern.SpelledBy.seq
        | exact .filler rfl,
      by decide, by decide, by decide, rfl, rfl⟩

theorem keeps_printRules : ∀ r ∈ printRules, r.pass.Keeps .none := by
  simp only [printRules, printRule, List.forall_mem_cons]
  refine ⟨.same (parensAround 1) ?_, .same (parensAround 1) ?_, .same (parensAround 1) ?_, by simp⟩
  all_goals
    exact ⟨_, ((Pattern.SpelledBy.text _).seq (.group rfl)).seq (.text _), by decide, by decide, by decide,
      rfl, rfl⟩

/-- A pass that needs a double quote does nothing without one. -/
theorem Pass.Keeps.of_has {p : Pass} (h : p.pattern.Has "\"") (k : Trade) : p.Keeps k := by
  intro cursor m hm _ hquote
  obtain ⟨-, -, g, hfits, -⟩ := Pattern.fits_of_matchAt? hm
  have hmem : '"' ∈ m.span.text := (h _ g hfits).subset List.mem_cons_self
  exact absurd hmem hquote

theorem keeps_concatRules : ∀ r ∈ concatRules, r.pass.Keeps .none := by
  have hliteral : Pattern.stringLiteral.Has "\"" := (Pattern.Has.text List.infix_rfl).left.left
  simp only [concatRules, List.forall_mem_cons]
  refine ⟨.of_has ?_ _, .of_has ?_ _, by simp⟩
  · exact (hliteral.group 1).left.left.left.left
  · exact (hliteral.group 2).right

/-- The rules behind the declarations, each with what it does with the parentheses around a group. -/
def statementTrades : List (Rule × Trade) :=
  controlRules.zip controlTrades ++ (callRule, .none) :: (returnRule, .none) ::
    constructionRules.zip constructionTrades

set_option maxRecDepth 4000 in
theorem keeps_statementTrades : ∀ x ∈ statementTrades, x.1.pass.Keeps x.2 := by
  -- a loop without a condition loses its parentheses, which hold nothing that is followed
  have hempty : NestsAs "()" "" := nestsAs_of_nested (by decide) (by decide)
  have hloop : StandsFor "()\x7b" "\x7b" :=
    fun _ => ⟨by decide, hempty.append (fun _ _ hs => hs : NestsAs "\x7b" "\x7b")⟩
  simp only [statementTrades, controlRules, ifRule, whileRule, forRule, doRule, untilRule, controlTrades,
    callRule, returnRule, constructionRules, declaredObjectRule, newObjectRule, constructionTrades,
    List.zip_cons_cons, List.zip_nil_left, List.cons_append, List.nil_append, List.forall_mem_cons]
  refine ⟨.around "(" ")\x7b" [] "\x7b" ?_ (by decide) fun m h => nestsAs_of_drops h "\x7b",
    .around "(" ")\x7b" [] "\x7b" ?_ (by decide) fun m h => nestsAs_of_drops h "\x7b",
    .fixed ?_ hloop, .same [.char '\x7b'] ?_,
    .around "\x7d(" ")" "(" ")\x7b\x7d\x7d" ?_ (by decide) fun m h => nestsAs_until h,
    .same (parensAround 3) ?_, .same [.group 1] ?_,
    .around "(" ")" "\x7b" "\x7d" ?_ (by decide) fun m h => nestsAs_of_replaces h,
    .around "(" ")" "\x7b" "\x7d" ?_ (by decide) fun m h => nestsAs_of_replaces h, by simp⟩
  all_goals
    exact ⟨_, by
      repeat' first
        | exact .text _
        | exact .group rfl
        | apply Pattern.SpelledBy.seq
        | exact .filler rfl,
      by decide, by decide, by decide, rfl, rfl⟩

theorem lasting_nestSigns : Lasting nestSigns := ⟨by decide, by decide⟩

set_option maxRecDepth 4000 in
theorem trails_declarationRule :
    declarationRule.Trails nestSigns [.group 1, .group 5] [.group 1, .group 5] := by
  unfold declarationRule declarationPattern
  exact ⟨_, by
    repeat' first
      | exact .text _
      | exact .group rfl
      | apply Pattern.SpelledBy.seq
      | exact .filler rfl,
    by decide, by decide, by decide, rfl, rfl⟩

theorem keeps_declarationPass : declarationPass.Keeps .none := by
  intro cursor m hm _
  show StandsFor m.span.text (recastDeclaration m)
  unfold recastDeclaration
  split
  · exact .refl _
  · obtain ⟨g, -, hbefore, hafter⟩ := trails_declarationRule.trace_eq hm
    have hfill : declarationRule.template.fill m =
        m.group 1 ++ (m.group 2 ++ (m.group 4 ++ (" := ".toList ++ (m.group 5 ++ [])))) := rfl
    apply standsFor_of_trace_eq
    rw [hbefore, ← hafter, hfill]
    simp only [trace_append, trace_trimEnd lasting_nestSigns, List.append_assoc, List.append_nil]

/-! ## Runs of passes -/

/-- The passes of rules, each with what it does with the parentheses around a group. -/
def tradedRules (rules : List (Rule × Trade)) : List (Pass × Trade) := rules.map fun x => (x.1.pass, x.2)

/-- The passes for a body, each with what it does with the parentheses around a group. -/
def tradedPasses (libraryCalls : Bool) : List (Pass × Trade) :=
  tradedRules (if libraryCalls then libraryRules.zip libraryTrades else []) ++
    (tradedRules ((printRules ++ concatRules).map (·, .none)) ++ (declarationPass, .none) ::
      tradedRules statementTrades)

theorem map_fst_tradedPasses (libraryCalls : Bool) :
    (tradedPasses libraryCalls).map Prod.fst = bodyPasses libraryCalls := by
  cases libraryCalls <;> rfl

theorem keeps_of_mem_tradedPasses {libraryCalls : Bool} :
    ∀ x ∈ tradedPasses libraryCalls, x.1.Keeps x.2 := by
  have hrules : ∀ {rules : List (Rule × Trade)}, (∀ x ∈ rules, x.1.pass.Keeps x.2) →
      ∀ x ∈ tradedRules rules, x.1.Keeps x.2 := by
    intro rules h x hx
    obtain ⟨y, hy, rfl⟩ := List.mem_map.mp hx
    exact h y hy
  have hnone : ∀ {rules : List Rule}, (∀ r ∈ rules, r.pass.Keeps .none) →
      ∀ x ∈ rules.map (·, Trade.none), x.1.pass.Keeps x.2 := by
    intro rules h x hx
    obtain ⟨r, hr, rfl⟩ := List.mem_map.mp hx
    exact h r hr
  unfold tradedPasses
  rw [List.forall_mem_append, List.forall_mem_append, List.forall_mem_cons]
  refine ⟨hrules ?_, hrules (hnone ?_), keeps_declarationPass, hrules keeps_statementTrades⟩
  · cases libraryCalls with
    | false => exact fun x hx => absurd hx List.not_mem_nil
    | true => exact keeps_libraryRules
  · rw [List.forall_mem_append]
    exact ⟨keeps_printRules, keeps_concatRules⟩

/-- One pass, where every group it needs as a unit is one. -/
theorem Pass.Keeps.standsFor_apply {p : Pass} {k : Trade} (hp : p.Keeps k) {t : Text}
    (h : ∀ m ∈ p.pattern.findAll t, k.Allows m) : StandsFor t (p.apply t) := by
  apply Pattern.replaceAll_rel (.refl []) (fun c => .refl [c]) StandsFor.append
  intro m hm
  obtain ⟨cursor, hmatch⟩ := Pattern.exists_matchAt?_of_mem_findAll hm
  exact hp cursor m hmatch (h m hm)

/-- Along a run of passes, every group that a pass needs as a unit is one. -/
def UnitsAlong : List (Pass × Trade) → Text → Prop
  | [], _ => True
  | x :: rest, t => (∀ m ∈ x.1.pattern.findAll t, x.2.Allows m) ∧ UnitsAlong rest (x.1.apply t)

instance decidableUnitsAlong : (xs : List (Pass × Trade)) → (t : Text) → Decidable (UnitsAlong xs t)
  | [], _ => isTrue trivial
  | x :: rest, t =>
    haveI := decidableUnitsAlong rest (x.1.apply t)
    inferInstanceAs (Decidable ((∀ m ∈ x.1.pattern.findAll t, x.2.Allows m) ∧ UnitsAlong rest (x.1.apply t)))

theorem UnitsAlong.standsFor_run : ∀ {xs : List (Pass × Trade)} {t : Text}, (∀ x ∈ xs, x.1.Keeps x.2) →
    UnitsAlong xs t → StandsFor t (Pass.run (xs.map Prod.fst) t)
  | [], t, _, _ => .refl t
  | x :: rest, t, hkeeps, h => by
    rw [List.forall_mem_cons] at hkeeps
    have hrest := UnitsAlong.standsFor_run hkeeps.2 h.2
    rw [List.map_cons, Pass.run_cons]
    exact (hkeeps.1.standsFor_apply h.1).trans hrest

/-- Along the recasting of a body, a group whose parentheses are replaced is nested by itself, and a group
whose parentheses are dropped leaves at most parentheses open. -/
def BracketUnits (libraryCalls : Bool) (body : Text) : Prop :=
  UnitsAlong (tradedPasses libraryCalls) (splitStatements body)

instance (libraryCalls : Bool) (body : Text) : Decidable (BracketUnits libraryCalls body) :=
  decidableUnitsAlong _ _

/-- **Recasting keeps brackets nested**, in a body without double quotes where the groups that lose or
change their parentheses are units. -/
theorem nested_recast (libraryCalls : Bool) (body : Text) (hquote : '"' ∉ body) (hnested : Nested body)
    (hunits : BracketUnits libraryCalls body) : Nested (({ libraryCalls } : Recaster).recast body) := by
  have hsplit : StandsFor body (splitStatements body) :=
    standsFor_of_trace_eq (trace_splitStatements lasting_nestSigns body)
  have hrun := UnitsAlong.standsFor_run keeps_of_mem_tradedPasses hunits
  rw [map_fst_tradedPasses] at hrun
  have hstrip := standsFor_of_trace_eq (trace_stripTerminators lasting_nestSigns
    (Pass.run (bodyPasses libraryCalls) (splitStatements body)))
  rw [Recaster.recast_eq_run]
  exact ((hsplit.trans hrun).trans hstrip hquote).2 [] [] hnested

/-- Calls within a condition, within the arguments of a new object and at the end of a loop. -/
def callsWithin : Text :=
  "if (a.get(i) > g(b[0])) \x7b p = new Point(x, y[1]); \x7d do \x7b i++; \x7d while (h(i));"

set_option maxRecDepth 8000 in
theorem nested_recast_callsWithin :
    '"' ∉ callsWithin ∧ Nested callsWithin ∧ BracketUnits true callsWithin ∧
      Nested (({ libraryCalls := true } : Recaster).recast callsWithin) := by
  have hquote : '"' ∉ callsWithin := by decide +kernel
  have hnested : Nested callsWithin := by decide +kernel
  have hunits : BracketUnits true callsWithin := by decide +kernel
  exact ⟨hquote, hnested, hunits, nested_recast true callsWithin hquote hnested hunits⟩

/-- The first argument of a new object is a call: the brace closes before the call does. -/
def callFirst : Text := "use(new Point(f(1), 2));"

theorem not_nested_recast_callFirst :
    '"' ∉ callFirst ∧ Nested callFirst ∧ ({} : Recaster).recast callFirst = "use(Point\x7bf(1\x7d, 2))".toList ∧
      ¬ Nested (({} : Recaster).recast callFirst) := by
  have hrecast : ({} : Recaster).recast callFirst = "use(Point\x7bf(1\x7d, 2))".toList := by decide +kernel
  refine ⟨by decide +kernel, by decide +kernel, hrecast, ?_⟩
  rw [hrecast]
  decide +kernel

end GoDraft
