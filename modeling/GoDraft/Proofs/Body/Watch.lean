import GoDraft.Go.Functions
import GoDraft.Proofs.Text.Blanks
import GoDraft.Proofs.Text.Calls
import Mathlib.Data.Fintype.Basic
import Mathlib.Data.List.TakeWhile

/-!
# GoDraft — watching for the receiver

A machine reads a text and is caught when the receiver is assigned to: when its name stands alone, and a single
equals sign follows. What may stand between the two are blanks, semicolons and colons, and for a machine that looks
past them, closing parentheses.

* `Assigns` — a name is assigned to in a text;
* `Watch`, `Watch.run` — the machine;
* `Watch.step_eq_name`, `Watch.step_eq_armed`, `Watch.step_eq_equal`, `Watch.step_eq_caught` — its steps;
* `isCaught_run_iff` — the machine is caught by the texts that assign to the receiver.
-/

namespace GoDraft

open Text

/-! ## The machine -/

/-- What the machine can tell characters by. -/
inductive Glyph where
  | receiver
  | letter
  | dot
  | equals
  | slash
  | space
  | loose
  | paren
  | other
  deriving DecidableEq

instance : Fintype Glyph :=
  ⟨{.receiver, .letter, .dot, .equals, .slash, .space, .loose, .paren, .other}, fun k => by cases k <;> decide⟩

/-- What a character is to the machine. -/
def Glyph.of (c : Char) : Glyph :=
  if c = 's' then .receiver
  else if isWordChar c then .letter
  else if c = '.' then .dot
  else if c = '=' then .equals
  else if c = '/' then .slash
  else if c = ' ' then .space
  else if isBlank c || c == ';' || c == ':' then .loose
  else if c = ')' then .paren
  else .other

/-- What the machine knows of what it has read. -/
inductive Watch where
  /-- A name may begin here. -/
  | free
  /-- The same, behind a slash. -/
  | slash
  /-- A line comment begins here. -/
  | slashes
  /-- A letter here is no name of its own. -/
  | word
  /-- The receiver stands alone here, unless its word goes on. -/
  | name
  /-- The receiver stands before, and an equals sign may follow. -/
  | armed
  /-- The receiver and one equals sign stand before. -/
  | equal
  /-- The receiver is assigned to. -/
  | caught
  deriving DecidableEq

instance : Fintype Watch :=
  ⟨{.free, .slash, .slashes, .word, .name, .armed, .equal, .caught}, fun q => by cases q <;> decide⟩

namespace Watch

/-- One step of the machine, which may look past closing parentheses. -/
def step (parens : Bool) : Watch → Glyph → Watch
  | .caught, _ => .caught
  | .equal, .equals => .free
  | .equal, _ => .caught
  | .free, .receiver | .slash, .receiver | .armed, .receiver => .name
  | _, .receiver | _, .letter | _, .dot => .word
  | .name, .equals | .armed, .equals => .equal
  | .name, .space | .name, .loose | .armed, .space | .armed, .loose => .armed
  | .name, .paren | .armed, .paren => if parens then .armed else .free
  | .slash, .slash | .slashes, .slash => .slashes
  | _, .slash => .slash
  | .slashes, .space => .word
  | _, _ => .free

/-- The machine over a text. -/
def run (parens : Bool) (q : Watch) (t : Text) : Watch := t.foldl (fun q c => q.step parens (.of c)) q

/-- Whether the machine is caught by what it has read, if nothing follows. -/
def isCaught : Watch → Bool
  | .equal | .caught => true
  | _ => false

variable {p : Bool} {q : Watch} {t : Text}

@[simp] theorem run_nil (p : Bool) (q : Watch) : run p q [] = q := rfl

@[simp] theorem run_cons (p : Bool) (q : Watch) (c : Char) (t : Text) :
    run p q (c :: t) = run p (q.step p (.of c)) t := rfl

@[simp] theorem run_append (p : Bool) (q : Watch) (s t : Text) : run p q (s ++ t) = run p (run p q s) t :=
  List.foldl_append

/-- What every step over a text keeps, the run over it keeps. -/
theorem run_induct {P : Watch → Prop} (h : ∀ c ∈ t, ∀ q, P q → P (q.step p (.of c))) (hq : P q) : P (run p q t) := by
  induction t generalizing q with
  | nil => exact hq
  | cons c t ih =>
    rw [List.forall_mem_cons] at h
    exact ih h.2 (h.1 q hq)

@[simp] theorem run_caught (p : Bool) (t : Text) : run p .caught t = .caught :=
  run_induct (P := (· = .caught)) (fun _ _ _ hq => by rw [hq]; rfl) rfl

end Watch

/-! ## What the machine is caught by -/

/-- Whether a name behind a text stands alone: it goes on with no word, names no member and does not begin a line
comment. -/
def standsAlone (a : Text) : Bool :=
  !a.getLast?.any isDottedChar && !"//".toList.isSuffixOf a && !"// ".toList.isSuffixOf a

/-- Whether a character may stand between a name and its equals sign. -/
def isLoose (parens : Bool) (c : Char) : Bool := isBlank c || c == ';' || c == ':' || parens && c == ')'

/-- Whether a text goes on with a single equals sign, behind characters that may stand before it. -/
def isAssigned (parens : Bool) (v : Text) : Bool :=
  let behind := v.dropWhile (isLoose parens)
  behind.head? == some '=' && behind.tail.head? != some '='

/-- A name is assigned to somewhere in a text. -/
def Assigns (parens : Bool) (name t : Text) : Prop :=
  ∃ a v, t = a ++ (name ++ v) ∧ standsAlone a = true ∧ isAssigned parens v = true

namespace Glyph

theorem of_blank {c : Char} (h : GoDraft.isBlank c = true) : of c = .space ∨ of c = .loose := by
  have hword := isWordChar_of_isBlank h
  have hs : c ≠ 's' := by rintro rfl; revert hword; decide
  have hdot : c ≠ '.' := by rintro rfl; revert h; decide
  have hequals : c ≠ '=' := by rintro rfl; revert h; decide
  have hslash : c ≠ '/' := by rintro rfl; revert h; decide
  rw [of, if_neg hs, if_neg (by rw [hword]; decide), if_neg hdot, if_neg hequals, if_neg hslash]
  split
  · exact .inl rfl
  · rw [h]
    exact .inr rfl

theorem of_word {c : Char} (h : isWordChar c = true) : of c = .receiver ∨ of c = .letter := by
  rw [of, if_pos h]
  split
  · exact .inl rfl
  · exact .inr rfl

theorem of_eq_receiver {c : Char} : of c = .receiver ↔ c = 's' := by
  constructor
  · intro h
    unfold of at h
    split_ifs at h
    assumption
  · rintro rfl
    decide

theorem of_eq_equals {c : Char} : of c = .equals ↔ c = '=' := by
  constructor
  · intro h
    unfold of at h
    split_ifs at h
    assumption
  · rintro rfl
    decide

/-- What the machine tells characters by, where it reads a front part of a text. -/
theorem of_front (c : Char) :
    isDottedChar c = decide (of c = .receiver ∨ of c = .letter ∨ of c = .dot) ∧
      (c == '/') = decide (of c = .slash) ∧ (c == ' ') = decide (of c = .space) := by
  by_cases hs : c = 's'
  · subst hs
    decide
  by_cases hword : isWordChar c = true
  · have hslash : c ≠ '/' := by rintro rfl; revert hword; decide
    have hspace : c ≠ ' ' := by rintro rfl; revert hword; decide
    have hof : of c = .letter := by rw [of, if_neg hs, if_pos hword]
    simp [isDottedChar, hword, hof, hslash, hspace]
  by_cases hdot : c = '.'
  · subst hdot
    decide
  have hdotted : isDottedChar c = false := by simp [isDottedChar, hword, hdot]
  rw [hdotted, of, if_neg hs, if_neg hword, if_neg hdot]
  split_ifs <;> simp_all

theorem isLoose_iff {p : Bool} {c : Char} :
    isLoose p c = true ↔ of c = .space ∨ of c = .loose ∨ p = true ∧ of c = .paren := by
  constructor
  · intro h
    rw [isLoose, Bool.or_eq_true, Bool.or_eq_true, Bool.or_eq_true, Bool.and_eq_true, beq_iff_eq, beq_iff_eq,
      beq_iff_eq] at h
    rcases h with ((h | rfl) | rfl) | ⟨hp, rfl⟩
    · rcases of_blank h with h | h
      · exact .inl h
      · exact .inr (.inl h)
    · exact .inr (.inl (by decide))
    · exact .inr (.inl (by decide))
    · exact .inr (.inr ⟨hp, by decide⟩)
  · intro h
    have hspace : GoDraft.isBlank ' ' = true := by decide
    unfold of at h
    unfold isLoose
    split_ifs at h <;> simp_all

end Glyph

theorem isSuffixOf_slashes_concat (t : Text) (c : Char) :
    "//".toList.isSuffixOf (t ++ [c]) = (c == '/' && t.getLast? == some '/') := by
  have hreverse : "//".toList.reverse = ['/', '/'] := by decide
  rw [List.isSuffixOf, hreverse, List.reverse_append, List.reverse_singleton, List.singleton_append,
    List.isPrefixOf_cons_cons, ← List.head?_reverse, Bool.beq_comm]
  cases t.reverse with
  | nil => simp
  | cons d u => simp [List.isPrefixOf_cons_cons, Bool.beq_comm (a := d)]

theorem standsAlone_concat (t : Text) (c : Char) :
    standsAlone (t ++ [c]) =
      (!isDottedChar c && !(c == '/' && t.getLast? == some '/') && !(c == ' ' && "//".toList.isSuffixOf t)) := by
  have hcomment : "// ".toList.isSuffixOf (t ++ [c]) = (c == ' ' && "//".toList.isSuffixOf t) := by
    have hreverse : "// ".toList.reverse = ' ' :: "//".toList.reverse := by decide
    rw [List.isSuffixOf, hreverse, List.reverse_append, List.reverse_singleton, List.singleton_append,
      List.isPrefixOf_cons_cons, Bool.beq_comm, List.isSuffixOf]
  rw [standsAlone, List.getLast?_concat, isSuffixOf_slashes_concat, hcomment, Option.any_some]

namespace Watch

/-- Whether a name that begins here stands alone. -/
def isOpen : Watch → Bool
  | .free | .slash | .armed => true
  | _ => false

theorem front_step (p : Bool) (q : Watch) (k : Glyph) (x y : Bool)
    (hq : q.isCaught = false → x = decide (q = .slash ∨ q = .slashes) ∧ y = decide (q = .slashes))
    (h : (q.step p k).isCaught = false) :
    (!decide (k = .receiver ∨ k = .letter ∨ k = .dot) && !(decide (k = .slash) && x) &&
        !(decide (k = .space) && y)) = (q.step p k).isOpen ∧
      decide (k = .slash) = decide (q.step p k = .slash ∨ q.step p k = .slashes) ∧
      (decide (k = .slash) && x) = decide (q.step p k = .slashes) := by
  revert p q k x y
  decide

/-- What the machine knows of a text it is not caught by. -/
theorem front_of_run (p : Bool) (a : Text) (h : (run p .free a).isCaught = false) :
    standsAlone a = (run p .free a).isOpen ∧
      (a.getLast? == some '/') = decide (run p .free a = .slash ∨ run p .free a = .slashes) ∧
      "//".toList.isSuffixOf a = decide (run p .free a = .slashes) := by
  induction a using List.reverseRecOn with
  | nil => exact ⟨rfl, rfl, rfl⟩
  | append_singleton t c ih =>
    obtain ⟨hdotted, hslash, hspace⟩ := Glyph.of_front c
    rw [run_append] at h
    have hstep := front_step p (run p .free t) (.of c) _ _ (fun hq => (ih hq).2) h
    rw [← hdotted, ← hslash, ← hspace, ← standsAlone_concat, ← isSuffixOf_slashes_concat] at hstep
    rw [List.getLast?_concat, run_append]
    exact hstep

/-- What is behind the machine where it has seen the receiver. -/
def Behind (p : Bool) (t : Text) : Watch → Prop
  | .name => ∃ a, t = a ++ receiver ∧ standsAlone a = true
  | .armed => ∃ a u, t = a ++ (receiver ++ u) ∧ standsAlone a = true ∧ ∀ c ∈ u, isLoose p c = true
  | .equal => ∃ a u, t = a ++ (receiver ++ (u ++ ['='])) ∧ standsAlone a = true ∧ ∀ c ∈ u, isLoose p c = true
  | .caught => ∃ a u d v, t = a ++ (receiver ++ (u ++ '=' :: d :: v)) ∧ standsAlone a = true ∧
      (∀ c ∈ u, isLoose p c = true) ∧ d ≠ '='
  | _ => True

variable {p : Bool} {q : Watch} {k : Glyph} {c : Char}

theorem step_eq_name : q.step p k = .name ↔ q.isOpen = true ∧ k = .receiver := by
  revert p q k
  decide

theorem step_eq_armed : q.step p k = .armed ↔
    (q = .name ∨ q = .armed) ∧ (k = .space ∨ k = .loose ∨ p = true ∧ k = .paren) := by
  revert p q k
  decide

theorem step_eq_equal : q.step p k = .equal ↔ (q = .name ∨ q = .armed) ∧ k = .equals := by
  revert p q k
  decide

theorem step_eq_caught : q.step p k = .caught ↔ q = .caught ∨ q = .equal ∧ k ≠ .equals := by
  revert p q k
  decide

theorem isCaught_of_isOpen (h : q.isOpen = true) : q.isCaught = false := by
  revert q
  decide

/-- Behind the receiver and what may stand between it and its equals sign. -/
theorem Behind.exists_loose {t : Text} (h : Behind p t q) (hq : q = .name ∨ q = .armed) :
    ∃ a u, t = a ++ (receiver ++ u) ∧ standsAlone a = true ∧ ∀ c ∈ u, isLoose p c = true := by
  rcases hq with rfl | rfl
  · obtain ⟨a, rfl, ha⟩ := h
    exact ⟨a, [], by simp, ha, by simp⟩
  · exact h

theorem behind_run (p : Bool) (t : Text) : Behind p t (run p .free t) := by
  induction t using List.reverseRecOn with
  | nil => trivial
  | append_singleton t c ih =>
    -- on the text from its end: what the last step came from says what stands before it
    rw [run_append, run_cons, run_nil]
    cases hnew : (run p .free t).step p (.of c) with
    | name =>
      obtain ⟨hopen, hc⟩ := step_eq_name.mp hnew
      obtain rfl := Glyph.of_eq_receiver.mp hc
      exact ⟨t, rfl, (front_of_run p t (isCaught_of_isOpen hopen)).1.trans hopen⟩
    | armed =>
      obtain ⟨hq, hc⟩ := step_eq_armed.mp hnew
      obtain ⟨a, u, rfl, ha, hu⟩ := ih.exists_loose hq
      refine ⟨a, u ++ [c], by simp, ha, ?_⟩
      rw [List.forall_mem_append, List.forall_mem_singleton]
      exact ⟨hu, Glyph.isLoose_iff.mpr hc⟩
    | equal =>
      obtain ⟨hq, hc⟩ := step_eq_equal.mp hnew
      obtain rfl := Glyph.of_eq_equals.mp hc
      obtain ⟨a, u, rfl, ha, hu⟩ := ih.exists_loose hq
      exact ⟨a, u, by simp, ha, hu⟩
    | caught =>
      rcases step_eq_caught.mp hnew with hq | ⟨hq, hc⟩
      · rw [hq] at ih
        obtain ⟨a, u, d, v, rfl, ha, hu, hd⟩ := ih
        exact ⟨a, u, d, v ++ [c], by simp, ha, hu, hd⟩
      · rw [hq] at ih
        obtain ⟨a, u, rfl, ha, hu⟩ := ih
        exact ⟨a, u, c, [], by simp, ha, hu, fun h => hc (Glyph.of_eq_equals.mpr h)⟩
    | _ => trivial

theorem run_loose {u : Text} (hu : ∀ c ∈ u, isLoose p c = true) (hq : q = .name ∨ q = .armed) :
    run p q u = .name ∨ run p q u = .armed :=
  run_induct (P := fun q => q = .name ∨ q = .armed)
    (fun c hc _ hq => .inr (step_eq_armed.mpr ⟨hq, Glyph.isLoose_iff.mp (hu c hc)⟩)) hq

/-- The receiver where a name may begin, and its equals sign. -/
theorem run_receiver {u : Text} (hq : q.isOpen = true ∨ q.isCaught = true) (hu : ∀ c ∈ u, isLoose p c = true) :
    run p q (receiver ++ (u ++ ['='])) = .equal ∨ run p q (receiver ++ (u ++ ['='])) = .caught := by
  have hfirst : run p q receiver = .name ∨ run p q receiver = .caught := by
    clear hu
    revert p q
    decide
  rw [run_append]
  rcases hfirst with hname | hcaught
  · rw [hname, run_append]
    exact .inl (step_eq_equal.mpr ⟨run_loose hu (.inl rfl), by decide⟩)
  · rw [hcaught, run_caught]
    exact .inr rfl

theorem run_cons_of_equal {d : Char} {v : Text} (hq : q = .equal ∨ q = .caught) (hd : d ≠ '=') :
    run p q (d :: v) = .caught := by
  have hstep : q.step p (.of d) = .caught := by
    rw [step_eq_caught]
    rcases hq with hequal | hcaught
    · exact .inr ⟨hequal, fun h => hd (Glyph.of_eq_equals.mp h)⟩
    · exact .inl hcaught
  rw [run_cons, hstep, run_caught]

/-- The machine is caught by a name that stands alone and what is assigned to it. -/
theorem isCaught_run_of_equals {a u v : Text} (ha : standsAlone a = true) (hu : ∀ c ∈ u, isLoose p c = true)
    (hv : v.head? ≠ some '=') : (run p .free (a ++ (receiver ++ (u ++ '=' :: v)))).isCaught = true := by
  have hq : (run p .free a).isOpen = true ∨ (run p .free a).isCaught = true := by
    cases hcaught : (run p .free a).isCaught with
    | false => exact .inl ((front_of_run p a hcaught).1.symm.trans ha)
    | true => exact .inr rfl
  have hequals := run_receiver hq hu
  have hparts : receiver ++ (u ++ '=' :: v) = receiver ++ (u ++ ['=']) ++ v := by simp
  rw [hparts, run_append, run_append]
  cases v with
  | nil => rcases hequals with h | h <;> rw [h] <;> rfl
  | cons d v =>
    rw [run_cons_of_equal hequals (by simpa using hv)]
    rfl

end Watch

theorem isAssigned_iff {p : Bool} {v : Text} :
    isAssigned p v = true ↔ ∃ u w, v = u ++ '=' :: w ∧ (∀ c ∈ u, isLoose p c = true) ∧ w.head? ≠ some '=' := by
  rw [isAssigned, Bool.and_eq_true, beq_iff_eq, bne_iff_ne]
  constructor
  · rintro ⟨hhead, htail⟩
    obtain ⟨w, hw⟩ := List.head?_eq_some_iff.mp hhead
    rw [hw] at htail
    refine ⟨v.takeWhile (isLoose p), w, ?_, fun c hc => List.mem_takeWhile_imp hc, htail⟩
    rw [← hw, List.takeWhile_append_dropWhile]
  · rintro ⟨u, w, rfl, hu, hw⟩
    have hequals : isLoose p '=' = false := by cases p <;> decide
    rw [List.dropWhile_append_of_pos hu, List.dropWhile_cons_of_neg (by rw [hequals]; decide)]
    exact ⟨rfl, hw⟩

/-- **The machine is caught by the texts that assign to the receiver.** -/
theorem isCaught_run_iff (p : Bool) (t : Text) : (Watch.run p .free t).isCaught = true ↔ Assigns p receiver t := by
  constructor
  · intro h
    have hbehind := Watch.behind_run p t
    cases hq : Watch.run p .free t with
    | equal =>
      rw [hq] at hbehind
      obtain ⟨a, u, rfl, ha, hu⟩ := hbehind
      exact ⟨a, _, rfl, ha, isAssigned_iff.mpr ⟨u, [], rfl, hu, by simp⟩⟩
    | caught =>
      rw [hq] at hbehind
      obtain ⟨a, u, d, v, rfl, ha, hu, hd⟩ := hbehind
      exact ⟨a, _, rfl, ha, isAssigned_iff.mpr ⟨u, d :: v, rfl, hu, by simpa using hd⟩⟩
    | _ =>
      rw [hq] at h
      cases h
  · rintro ⟨a, v, rfl, ha, hv⟩
    obtain ⟨u, w, rfl, hu, hw⟩ := isAssigned_iff.mp hv
    exact Watch.isCaught_run_of_equals ha hu hw

instance (p : Bool) (t : Text) : Decidable (Assigns p receiver t) := decidable_of_iff _ (isCaught_run_iff p t)

end GoDraft
