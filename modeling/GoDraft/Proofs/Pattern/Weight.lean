import GoDraft.Proofs.Pattern.Found
import Mathlib

/-!
# GoDraft — brackets and replacement rules

The balance of a text is the number of opening brackets less the number of closing ones, for one kind
of bracket. Replacing by a rule keeps it when each match and what the rule writes for it have the same
balance, whatever the groups of the match hold.

That can be read off the rule. A pattern is weighed part by part: its fixed texts have a balance, its
groups have whatever the match puts into them, and the rest reads no bracket. The template is weighed
the same way, and the two must agree.

* `Pattern.Weighs` — the balance of what a pattern reads, up to what its groups hold;
* `Rule.Even` — pattern and template weigh the same;
* `Rule.balance_apply` — such a rule keeps the balance of every text.
-/

namespace GoDraft

/-- The kinds of brackets. -/
inductive Bracket where
  | round
  | square
  | curly
  deriving DecidableEq, Repr

/-- The opening bracket of a kind. -/
def Bracket.opening : Bracket → Char
  | round => '('
  | square => '['
  | curly => '\x7b'

/-- The closing bracket of a kind. -/
def Bracket.closing : Bracket → Char
  | round => ')'
  | square => ']'
  | curly => '\x7d'

namespace Text

/-- The number of opening brackets of a kind less the number of closing ones. -/
def balance (b : Bracket) (t : Text) : Int := t.count b.opening - t.count b.closing

variable {b : Bracket}

@[simp] theorem balance_nil : balance b [] = 0 := by
  simp [balance]

@[simp] theorem balance_append (s t : Text) :
    balance b (s ++ t) = s.balance b + t.balance b := by
  simp only [balance, List.count_append]
  omega

theorem balance_cons (c : Char) (t : Text) :
    balance b (c :: t) = balance b [c] + t.balance b :=
  balance_append [c] t

theorem balance_eq_zero {t : Text} (ho : b.opening ∉ t) (hc : b.closing ∉ t) :
    t.balance b = 0 := by
  simp [balance, List.count_eq_zero_of_not_mem ho, List.count_eq_zero_of_not_mem hc]

/-- A text of characters of a class without brackets has balance zero. -/
theorem balance_eq_zero_of_all {t : Text} {accepts : Char → Bool} (h : ∀ c ∈ t, accepts c = true)
    (ho : accepts b.opening = false) (hc : accepts b.closing = false) : t.balance b = 0 := by
  apply balance_eq_zero
  · intro hmem
    simp [h _ hmem] at ho
  · intro hmem
    simp [h _ hmem] at hc

end Text

/-! ## Patterns without groups, and patterns that read no bracket -/

namespace Pattern

/-- Whether a pattern keeps nothing in groups. -/
def isGroupFree : Pattern → Bool
  | .seq p q | .alt p q => p.isGroupFree && q.isGroupFree
  | .many p | .few p => p.isGroupFree
  | .group _ _ => false
  | .empty | .one _ | .wordEdge | .lineStart => true

/-- Whether a pattern reads no bracket of a kind. -/
def isLight (b : Bracket) (p : Pattern) : Bool := p.avoids b.opening && p.avoids b.closing

theorem Rounds.notes_eq_nil {R : Text → Notes → Prop} (hR : ∀ s g, R s g → g = []) {s : Text}
    {g : Notes} (h : Rounds R s g) : g = [] := by
  induction h with
  | done => rfl
  | next first _ ih => rw [hR _ _ first, ih, List.append_nil]

theorem notes_eq_nil_of_isGroupFree :
    ∀ {p : Pattern}, p.isGroupFree = true → ∀ s g, p.Fits s g → g = []
  | .empty, _, _, _, h | .wordEdge, _, _, _, h | .lineStart, _, _, _, h => h.2
  | .one _, _, _, _, ⟨_, _, _, hg⟩ => hg
  | .seq p q, hp, _, _, ⟨_, _, _, _, h₁, h₂, _, hg⟩ => by
    rw [isGroupFree, Bool.and_eq_true] at hp
    rw [hg, notes_eq_nil_of_isGroupFree hp.1 _ _ h₁, notes_eq_nil_of_isGroupFree hp.2 _ _ h₂,
      List.append_nil]
  | .alt p q, hp, s, g, h => by
    rw [isGroupFree, Bool.and_eq_true] at hp
    rcases h with h | h
    · exact notes_eq_nil_of_isGroupFree hp.1 s g h
    · exact notes_eq_nil_of_isGroupFree hp.2 s g h
  | .many p, hp, _, _, h | .few p, hp, _, _, h =>
    Rounds.notes_eq_nil (notes_eq_nil_of_isGroupFree (p := p) hp) h

theorem balance_eq_zero_of_isLight {b : Bracket} {p : Pattern} (hp : p.isLight b = true) {s : Text}
    {g : Notes} (h : p.Fits s g) : s.balance b = 0 := by
  rw [isLight, Bool.and_eq_true] at hp
  exact Text.balance_eq_zero (not_mem_of_avoids hp.1 s g h) (not_mem_of_avoids hp.2 s g h)

end Pattern

/-! ## Weighing patterns -/

/-- The groups of a pattern, newest first, each with whether it surely holds no bracket. -/
abbrev Marks := List (Nat × Bool)

namespace Marks

/-- Whether notes are those of the marked groups. -/
def Describes (b : Bracket) (marks : Marks) (g : Notes) : Prop :=
  List.Forall₂ (fun x m => x.1 = m.1 ∧ (m.2 = true → x.2.balance b = 0)) g marks

/-- The groups that may hold brackets. -/
def heavy (marks : Marks) : List Nat := (marks.filter (!·.2)).map Prod.fst

end Marks

/-- The sum of the balances of all notes. -/
def Notes.balance (b : Bracket) (g : Notes) : Int := (g.map fun x => x.2.balance b).sum

@[simp] theorem Notes.balance_append (b : Bracket) (g h : Notes) :
    Notes.balance b (g ++ h) = g.balance b + h.balance b := by
  simp [Notes.balance]

namespace Pattern

/-- What a pattern reads has the balance `n`, and in addition that of what its groups hold. -/
def Weighs (b : Bracket) (p : Pattern) (n : Int) (marks : Marks) : Prop :=
  ∀ s g, p.Fits s g → s.balance b = n + g.balance b ∧ marks.Describes b g

namespace Weighs

variable {b : Bracket} {p q : Pattern}

theorem seq {n m : Int} {k l : Marks} (hp : p.Weighs b n k) (hq : q.Weighs b m l) :
    (p ++ q).Weighs b (n + m) (l ++ k) := by
  rintro s g ⟨s₁, g₁, s₂, g₂, h₁, h₂, rfl, rfl⟩
  obtain ⟨hs₁, hg₁⟩ := hp s₁ g₁ h₁
  obtain ⟨hs₂, hg₂⟩ := hq s₂ g₂ h₂
  refine ⟨?_, List.rel_append hg₂ hg₁⟩
  rw [Text.balance_append, Notes.balance_append, hs₁, hs₂]
  omega

theorem text (t : Text) : (text t).Weighs b (t.balance b) [] := by
  intro s g h
  obtain ⟨rfl, rfl⟩ := fits_text h
  exact ⟨by simp [Notes.balance], .nil⟩

theorem light (hfree : p.isGroupFree = true) (hlight : p.isLight b = true) : p.Weighs b 0 [] := by
  intro s g h
  obtain rfl := notes_eq_nil_of_isGroupFree hfree s g h
  rw [balance_eq_zero_of_isLight hlight h]
  exact ⟨rfl, .nil⟩

theorem group {index : Nat} (hfree : p.isGroupFree = true) :
    (group index p).Weighs b 0 [(index, p.isLight b)] := by
  rintro s g ⟨h, hp, rfl⟩
  obtain rfl := notes_eq_nil_of_isGroupFree hfree s h hp
  refine ⟨by simp [Notes.balance], .cons ⟨rfl, fun hlight => ?_⟩ .nil⟩
  exact balance_eq_zero_of_isLight hlight hp

end Weighs

end Pattern

/-! ## Notes under their marks -/

namespace Notes

theorem text_cons_self (i : Nat) (t : Text) (g : Notes) : Notes.text ((i, t) :: g) i = t := by
  simp [Notes.text]

theorem text_cons_ne {i j : Nat} (h : j ≠ i) (t : Text) (g : Notes) :
    Notes.text ((i, t) :: g) j = g.text j := by
  simp [Notes.text, List.lookup_cons, beq_eq_false_iff_ne.mpr h]

variable {b : Bracket}

/-- A group that is not marked as one that may hold brackets has balance zero. -/
theorem balance_text_eq_zero {marks : Marks} {g : Notes} (h : marks.Describes b g) {i : Nat}
    (hi : (i, false) ∉ marks) : (g.text i).balance b = 0 := by
  induction h with
  | nil => simp [Notes.text]
  | @cons x m g marks hx _ ih =>
    obtain ⟨j, t⟩ := x
    obtain ⟨k, light⟩ := m
    obtain ⟨rfl, hlight⟩ := hx
    rw [List.mem_cons, not_or] at hi
    by_cases hij : i = j
    · subst hij
      rw [text_cons_self]
      cases light
      · exact absurd rfl hi.1
      · exact hlight rfl
    · rw [text_cons_ne hij]
      exact ih hi.2

/-- The balance of all notes is that of the groups that may hold brackets. -/
theorem balance_eq_heavy {marks : Marks} {g : Notes} (h : marks.Describes b g)
    (hnodup : (marks.map Prod.fst).Nodup) :
    g.balance b = (marks.heavy.map fun i => (g.text i).balance b).sum := by
  induction h with
  | nil => rfl
  | @cons x m g marks hx hrest ih =>
    obtain ⟨j, t⟩ := x
    obtain ⟨k, light⟩ := m
    obtain ⟨rfl, hlight⟩ := hx
    rw [List.map_cons, List.nodup_cons] at hnodup
    -- the groups marked later have other numbers, so their texts are unchanged
    have hsame : ((Marks.heavy marks).map fun i => (Notes.text ((j, t) :: g) i).balance b) =
        (Marks.heavy marks).map fun i => (Notes.text g i).balance b := by
      apply List.map_congr_left
      intro i hi
      have hij : i ≠ j := by
        rintro rfl
        obtain ⟨m, hm, rfl⟩ := List.mem_map.mp hi
        exact hnodup.1 (List.mem_map.mpr ⟨m, (List.mem_filter.mp hm).1, rfl⟩)
      rw [text_cons_ne hij]
    have hg := ih hnodup.2
    have hcons : Notes.balance b ((j, t) :: g) = t.balance b + Notes.balance b g := by
      simp [Notes.balance]
    rw [hcons, hg]
    cases light
    · have hheavy : Marks.heavy ((j, false) :: marks) = j :: Marks.heavy marks := rfl
      rw [hheavy, List.map_cons, List.sum_cons, hsame, text_cons_self]
    · have hheavy : Marks.heavy ((j, true) :: marks) = Marks.heavy marks := rfl
      rw [hheavy, hsame, hlight rfl, Int.zero_add]

end Notes

/-! ## Weighing rules -/

namespace Template

/-- The groups a template writes, in order. -/
def uses : Template → List Nat
  | [] => []
  | .text _ :: tmpl => uses tmpl
  | .group index :: tmpl => index :: uses tmpl

/-- The balance of the fixed texts of a template. -/
def balance (b : Bracket) : Template → Int
  | [] => 0
  | .text t :: tmpl => t.balance b + balance b tmpl
  | .group _ :: tmpl => balance b tmpl

theorem balance_fill {b : Bracket} {m : Match} :
    ∀ tmpl : Template, (tmpl.fill m).balance b =
      tmpl.balance b + (tmpl.uses.map fun i => (m.group i).balance b).sum
  | [] => by
    simp [fill, balance, uses]
  | .text t :: tmpl => by
    have ih := balance_fill (b := b) (m := m) tmpl
    have hfill : fill (.text t :: tmpl) m = t ++ fill tmpl m := rfl
    rw [hfill, Text.balance_append, ih, balance, uses]
    omega
  | .group index :: tmpl => by
    have ih := balance_fill (b := b) (m := m) tmpl
    have hfill : fill (.group index :: tmpl) m = m.group index ++ fill tmpl m := rfl
    rw [hfill, Text.balance_append, ih, balance, uses, List.map_cons, List.sum_cons]
    omega

end Template

namespace Rule

/-- The pattern and the template of a rule weigh the same: their fixed texts have one balance, and
each group that may hold brackets is written once. -/
def Even (b : Bracket) (r : Rule) : Prop :=
  ∃ n marks, r.pattern.Weighs b n marks ∧ n = r.template.balance b ∧
    (marks.map Prod.fst).Nodup ∧ 0 ∉ r.template.uses ∧
    (r.template.uses.filter fun i => marks.contains (i, false)).Perm marks.heavy

variable {b : Bracket} {r : Rule}

theorem sum_filter_of_eq_zero {f : Nat → Int} {keep : Nat → Bool}
    (h : ∀ i, keep i = false → f i = 0) :
    ∀ l : List Nat, ((l.filter keep).map f).sum = (l.map f).sum
  | [] => rfl
  | i :: l => by
    have ih := sum_filter_of_eq_zero h l
    cases hi : keep i
    · rw [List.filter_cons_of_neg (by simp [hi]), List.map_cons, List.sum_cons, ih, h i hi,
        Int.zero_add]
    · rw [List.filter_cons_of_pos hi, List.map_cons, List.map_cons, List.sum_cons, List.sum_cons, ih]

/-- What an even rule writes for a match has the balance of the match. -/
theorem Even.balance_fill (hr : r.Even b) {k : Cursor} {m : Match}
    (hm : r.pattern.matchAt? k = some m) :
    (r.template.fill m).balance b = m.span.text.balance b := by
  obtain ⟨n, marks, hw, hn, hnodup, hzero, hperm⟩ := hr
  obtain ⟨-, -, g, hfits, hgroup⟩ := Pattern.fits_of_matchAt? hm
  obtain ⟨hbal, hmarks⟩ := hw _ g hfits
  have hgroups : (r.template.uses.map fun i => (m.group i).balance b) =
      r.template.uses.map fun i => (g.text i).balance b := by
    apply List.map_congr_left
    intro i hi
    obtain ⟨j, rfl⟩ := Nat.exists_eq_succ_of_ne_zero fun h => hzero (h ▸ hi)
    rw [hgroup]
  have hlight : ∀ i, marks.contains (i, false) = false → (g.text i).balance b = 0 := by
    intro i hi
    apply Notes.balance_text_eq_zero hmarks
    simpa using hi
  calc (r.template.fill m).balance b
      = n + (r.template.uses.map fun i => (g.text i).balance b).sum := by
        rw [Template.balance_fill, hgroups, hn]
    _ = n + (marks.heavy.map fun i => (g.text i).balance b).sum := by
        rw [← sum_filter_of_eq_zero hlight, (hperm.map _).sum_eq]
    _ = m.span.text.balance b := by
        rw [hbal, Notes.balance_eq_heavy hmarks hnodup]

/-- An even rule keeps the balance of every text. -/
theorem Even.balance_apply (hr : r.Even b) (t : Text) : (r.apply t).balance b = t.balance b :=
  Pattern.replaceAll_measure Text.balance_append (fun _ _ hm => hr.balance_fill hm) t

/-- Even rules one after another keep the balance of every text. -/
theorem balance_applyAll :
    ∀ (rules : List Rule), (∀ r ∈ rules, r.Even b) → ∀ t : Text,
      (applyAll rules t).balance b = t.balance b
  | [], _, _ => rfl
  | r :: rules, h, t => by
    have ih := balance_applyAll rules (fun r' hr' => h r' (List.mem_cons_of_mem r hr')) (r.apply t)
    calc (applyAll (r :: rules) t).balance b
        = (applyAll rules (r.apply t)).balance b := rfl
      _ = t.balance b := by rw [ih, (h r List.mem_cons_self).balance_apply]

end Rule

end GoDraft
