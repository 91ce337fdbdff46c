import GoDraft.Files.Path
import Mathlib.Data.Char
import Mathlib.Data.List.Lex
import Mathlib.Data.Prod.Lex

/-!
# GoDraft — the order of paths

Paths are compared step by step. A step is compared by its rank and, if it is a name, by its characters, so the
order of paths is a lexicographic one.

* `Path.le_iff` — the order is the one of the keys;
* `Path.le_or_le`, `Path.le_trans`, `Path.components_eq_of_le` — what sorting needs.
-/

namespace GoDraft

/-- What a step is compared by. -/
def Component.key : Component → Nat ×ₗ List Char
  | .name t => toLex (3, t)
  | step => toLex (step.rank, [])

namespace Path

theorem cons_le_cons_iff {α : Type} [LinearOrder α] {a b : α} {s t : List α} :
    a :: s ≤ b :: t ↔ a < b ∨ a = b ∧ s ≤ t := by
  have hlt : a :: s < b :: t ↔ a < b ∨ a = b ∧ s < t := List.cons_lt_cons_iff
  rw [le_iff_lt_or_eq, hlt, le_iff_lt_or_eq, List.cons.injEq, and_or_left, or_assoc]

theorem nil_le {α : Type} [LinearOrder α] (s : List α) : [] ≤ s := by
  cases s with
  | nil => exact le_rfl
  | cons a s => exact le_of_lt List.Lex.nil

theorem textLe_iff : ∀ {s t : Text}, textLe s t = true ↔ (s : List Char) ≤ t
  | [], t => iff_of_true rfl (nil_le t)
  | c :: s, [] => iff_of_false Bool.false_ne_true (not_le_of_gt List.Lex.nil)
  | c :: s, d :: t => by
    have ih := @textLe_iff s t
    simp only [textLe, Bool.or_eq_true, Bool.and_eq_true, decide_eq_true_eq, beq_iff_eq, ih]
    rw [cons_le_cons_iff]
    rfl

theorem key_injective : Function.Injective Component.key := by
  intro a b h
  cases a <;> cases b <;> simp_all [Component.key, Component.rank]

theorem stepLt_name_iff {s t : Text} : stepLt (.name s) (.name t) = true ↔ (s : List Char) < t := by
  rw [stepLt, Bool.and_eq_true, bne_iff_ne, textLe_iff, and_comm]
  exact (lt_iff_le_and_ne (α := List Char)).symm

theorem stepLt_iff (a b : Component) : stepLt a b = true ↔ a.key < b.key := by
  cases a <;> cases b
  case name.name s t =>
    rw [stepLt_name_iff, Component.key, Component.key, Prod.Lex.toLex_lt_toLex]
    simp
  all_goals simp [stepLt, Component.key, Component.rank, Prod.Lex.toLex_lt_toLex]

theorem stepsLe_iff : ∀ {s t : List Component},
    stepsLe s t = true ↔ s.map Component.key ≤ t.map Component.key
  | [], t => iff_of_true rfl (nil_le _)
  | a :: s, [] => iff_of_false Bool.false_ne_true (not_le_of_gt List.Lex.nil)
  | a :: s, b :: t => by
    have ih := @stepsLe_iff s t
    rw [stepsLe, Bool.or_eq_true, Bool.and_eq_true, stepLt_iff, beq_iff_eq, ih, List.map_cons, List.map_cons,
      cons_le_cons_iff, key_injective.eq_iff]

theorem le_iff {p q : Path} :
    p.le q = true ↔ p.components.map Component.key ≤ q.components.map Component.key := stepsLe_iff

theorem le_or_le (p q : Path) : (p.le q || q.le p) = true := by
  rw [Bool.or_eq_true, le_iff, le_iff]
  exact le_total _ _

theorem le_trans {p q r : Path} (hpq : p.le q = true) (hqr : q.le r = true) : p.le r = true := by
  rw [le_iff] at hpq hqr ⊢
  exact hpq.trans hqr

/-- Two paths that come before each other mean the same. -/
theorem components_eq_of_le {p q : Path} (hpq : p.le q = true) (hqp : q.le p = true) :
    p.components = q.components := by
  rw [le_iff] at hpq hqp
  exact key_injective.list_map (le_antisymm hpq hqp)

end Path

end GoDraft
