import GoDraft.Proofs.Pattern.Fits

/-!
# GoDraft — parts that a match needs

A pattern with a fixed text in it matches only where that text stands. Where the text does not stand
anywhere, replacing changes nothing.

* `infix_or_infix_of_not_mem` — a part without a separator;
* `Pattern.Has` — a text that every reading holds as a part;
* `Pattern.replaceAll_of_not_infix` — replacing without that part.
-/

namespace GoDraft

/-- A part without a separator lies on one side of it. -/
theorem infix_or_infix_of_not_mem {s t u : Text} {x : Char} (hx : x ∉ s) (h : s <:+: t ++ x :: u) :
    s <:+: t ∨ s <:+: u := by
  obtain ⟨pre, post, h⟩ := h
  rcases List.append_eq_append_iff.mp h with ⟨m, hm, -⟩ | ⟨m, hm, hpost⟩
  · exact .inl ⟨pre, m, hm.symm⟩
  · cases m with
    | nil => exact .inl ⟨pre, [], by rw [hm, List.append_nil, List.append_nil]⟩
    | cons y m =>
      rw [List.cons_append, List.cons.injEq] at hpost
      obtain ⟨rfl, hu⟩ := hpost
      rcases List.append_eq_append_iff.mp hm with ⟨d, -, hs⟩ | ⟨d, -, hd⟩
      · exact absurd (by rw [hs]; simp) hx
      · cases d with
        | nil => exact absurd (by rw [← List.nil_append s, ← hd]; simp) hx
        | cons z d =>
          rw [List.cons_append, List.cons.injEq] at hd
          exact .inr ⟨d, post, by rw [hu, hd.2]⟩

namespace Pattern

variable {p q : Pattern} {x t : Text} {f : Match → Text}

/-- Every reading of the pattern holds a text as a part. -/
def Has (p : Pattern) (x : Text) : Prop := ∀ s g, p.Fits s g → x <:+: s

namespace Has

theorem text (h : x <:+: t) : (Pattern.text t).Has x := by
  intro s g hs
  rw [(fits_text hs).1]
  exact h

theorem left (h : p.Has x) : (p ++ q).Has x := by
  rintro s g ⟨s₁, g₁, s₂, g₂, hp, -, rfl, -⟩
  exact (h s₁ g₁ hp).trans (List.infix_append [] s₁ s₂)

theorem right (h : q.Has x) : (p ++ q).Has x := by
  rintro s g ⟨s₁, g₁, s₂, g₂, -, hq, rfl, -⟩
  exact (h s₂ g₂ hq).trans (List.suffix_append s₁ s₂).isInfix

theorem group (h : p.Has x) (index : Nat) : (Pattern.group index p).Has x := by
  rintro s g ⟨g', hp, -⟩
  exact h s g' hp

theorem ne_nil (h : p.Has x) (hx : x ≠ []) : ∀ s g, p.Fits s g → s ≠ [] := by
  rintro s g hs rfl
  exact hx (List.infix_nil.mp (h [] g hs))

end Has

/-- Where a pattern matches nowhere, replacing changes nothing. -/
theorem replaceFrom_of_forall_none : ∀ (t : Text) (b : Option Char) (offset : Nat),
    (∀ post, post <:+ t → ∀ b offset, p.matchAt? ⟨b, offset, post⟩ = none) →
    p.replaceFrom f b offset 0 t = t
  | [], _, _, _ => rfl
  | c :: t, b, offset, h => by
    rw [replaceFrom_none (h _ List.suffix_rfl b offset), replaceFrom_of_forall_none t]
    intro post hpost
    exact h post (hpost.trans (List.suffix_cons c t))

/-- A pattern does not match in a text without a part that every match needs. -/
theorem matchAt?_of_not_infix (hp : p.Has x) (h : ¬ x <:+: t) (b : Option Char) (offset : Nat) :
    p.matchAt? ⟨b, offset, t⟩ = none := by
  rw [Option.eq_none_iff_forall_not_mem]
  intro m hm
  obtain ⟨-, hrest, g, hfits, -⟩ := fits_of_matchAt? hm
  apply h
  rw [show t = m.span.text ++ m.span.stop.rest from hrest]
  exact (hp _ g hfits).trans (List.infix_append [] _ _)

/-- Replacing changes nothing in a text without a part that every match needs. -/
theorem replaceAll_of_not_infix (hp : p.Has x) (h : ¬ x <:+: t) : p.replaceAll f t = t :=
  replaceFrom_of_forall_none t none 0 fun _ hpost b offset =>
    matchAt?_of_not_infix hp (fun hpart => h (hpart.trans hpost.isInfix)) b offset

end Pattern

end GoDraft
