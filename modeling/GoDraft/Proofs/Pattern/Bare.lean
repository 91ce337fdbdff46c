import GoDraft.Proofs.Pattern.Skips

/-!
# GoDraft — patterns without their groups

Whether a pattern matches does not hang on what its groups keep. To see that it does not match, the
groups can be left out, and what is left is followed character by character.

* `Pattern.bare`, `Pattern.views_eq_nil_of_bare` — a pattern without its groups;
* `Pattern.views_run_cons`, `Pattern.views_run1_cons` — one character of a greedy run;
* `Pattern.First.many`, `Pattern.First.run` — the best view of a run.
-/

namespace GoDraft

/-! ## Leaving the groups out -/

namespace View

/-- A view without its notes. -/
def bare (v : View) : View := ⟨v.before, v.rest, []⟩

variable {step step' : View → List View}

theorem map_bare_filter (h : ∀ v, (step v).map bare = step' v.bare) (v : View) :
    ((step v).filter (·.passes v)).map bare = (step' v.bare).filter (·.passes v.bare) := by
  rw [← h v, List.filter_map]
  rfl

theorem map_bare_most (h : ∀ v, (step v).map bare = step' v.bare) :
    ∀ (bound : Text) (v : View), (v.most step bound).map bare = v.bare.most step' bound
  | [], _ => rfl
  | _ :: bound, v => by
    have ih := map_bare_most h bound
    rw [most, most, List.map_append, List.map_flatMap, ← map_bare_filter h, List.flatMap_map]
    congr 2
    exact funext ih

theorem map_bare_fewest (h : ∀ v, (step v).map bare = step' v.bare) :
    ∀ (bound : Text) (v : View), (v.fewest step bound).map bare = v.bare.fewest step' bound
  | [], _ => rfl
  | _ :: bound, v => by
    have ih := map_bare_fewest h bound
    rw [fewest, fewest, List.map_cons, List.map_flatMap, ← map_bare_filter h, List.flatMap_map]
    congr 2
    exact funext ih

end View

namespace Pattern

variable {p q : Pattern} {v : View} {b : Option Char} {s t : Text} {g : Notes} {accepts : Char → Bool}
  {c : Char}

/-- A pattern without its groups. -/
def bare : Pattern → Pattern
  | .group _ p => p.bare
  | .seq p q => .seq p.bare q.bare
  | .alt p q => .alt p.bare q.bare
  | .many p => .many p.bare
  | .few p => .few p.bare
  | .one accepts => .one accepts
  | .empty => .empty
  | .wordEdge => .wordEdge
  | .lineStart => .lineStart

/-- Without its groups a pattern goes the same way. -/
theorem map_bare_views : ∀ (p : Pattern) (v : View), (p.views v).map View.bare = p.bare.views v.bare
  | .empty, v => rfl
  | .wordEdge, v => by
    rw [bare, views, views, show v.isWordEdge = v.bare.isWordEdge from rfl]
    split <;> rfl
  | .lineStart, v => by
    rw [bare, views, views, show v.isLineStart = v.bare.isLineStart from rfl]
    split <;> rfl
  | .one accepts, ⟨b, [], g⟩ => rfl
  | .one accepts, ⟨b, c :: t, g⟩ => by
    rw [bare, View.bare, views_one_cons, views_one_cons]
    split <;> rfl
  | .seq p q, v => by
    rw [bare, views, views, List.map_flatMap, ← map_bare_views p v, List.flatMap_map]
    congr 1
    exact funext (map_bare_views q)
  | .alt p q, v => by
    rw [bare, views, views, List.map_append, map_bare_views p, map_bare_views q]
  | .many p, v => View.map_bare_most (map_bare_views p) _ v
  | .few p, v => View.map_bare_fewest (map_bare_views p) _ v
  | .group index p, v => by
    rw [bare, views, List.map_map, ← map_bare_views p v]
    rfl

theorem views_eq_nil_of_bare (h : p.bare.views ⟨b, t, []⟩ = []) : p.views ⟨b, t, g⟩ = [] := by
  have hmap := map_bare_views p ⟨b, t, g⟩
  rw [View.bare, h, List.map_eq_nil_iff] at hmap
  exact hmap

theorem skips_of_bare {tail : Text} : ∀ {t : Text} {b : Option Char}, p.bare.Skips b t tail →
    p.Skips b t tail
  | [], _, _ => trivial
  | _ :: _, _, ⟨hc, ht⟩ => ⟨views_eq_nil_of_bare hc, skips_of_bare ht⟩

/-! ## Runs, one character at a time -/

/-- A run goes over a character of its class when what follows rejects that character. -/
theorem views_run_cons (hq : accepts c = true → q.Rejects c) (b : Option Char) (t : Text) (g : Notes) :
    (many (one accepts) ++ q).views ⟨b, c :: t, g⟩ =
      if accepts c then (many (one accepts) ++ q).views ⟨some c, t, g⟩ else q.views ⟨b, c :: t, g⟩ := by
  rw [views_seq, views_many_one_cons]
  split
  · rename_i hc
    rw [List.flatMap_append, List.flatMap_singleton, hq hc _ rfl, List.append_nil, views_seq]
  · rw [List.nil_append, List.flatMap_singleton]

theorem views_run_nil (accepts : Char → Bool) (q : Pattern) (b : Option Char) (g : Notes) :
    (many (one accepts) ++ q).views ⟨b, [], g⟩ = q.views ⟨b, [], g⟩ := by
  rw [views_seq, views_many_one_nil, List.flatMap_singleton]

theorem views_run_append (hs : ∀ c ∈ s, accepts c = true) (hq : ∀ c ∈ s, q.Rejects c)
    (b : Option Char) (t : Text) (g : Notes) :
    (many (one accepts) ++ q).views ⟨b, s ++ t, g⟩ =
      (many (one accepts) ++ q).views ⟨lastOf b s, t, g⟩ := by
  induction s generalizing b with
  | nil => rw [List.nil_append, lastOf_nil]
  | cons c s ih =>
    rw [List.cons_append, views_run_cons (fun _ => hq c List.mem_cons_self),
      if_pos (hs c List.mem_cons_self), lastOf_cons]
    exact ih (fun d hd => hs d (List.mem_cons_of_mem c hd))
      (fun d hd => hq d (List.mem_cons_of_mem c hd)) (some c)

theorem views_run_of_stopsAt (ht : stopsAt accepts t = true) (q : Pattern) (b : Option Char)
    (g : Notes) : (many (one accepts) ++ q).views ⟨b, t, g⟩ = q.views ⟨b, t, g⟩ := by
  cases t with
  | nil => exact views_run_nil accepts q b g
  | cons c t =>
    rw [stopsAt_cons, Bool.not_eq_true'] at ht
    rw [views_run_cons (by simp [ht]), ht, if_neg Bool.false_ne_true]

theorem views_run1_cons (accepts : Char → Bool) (q : Pattern) (b : Option Char) (c : Char) (t : Text)
    (g : Notes) : (many1 (one accepts) ++ q).views ⟨b, c :: t, g⟩ =
      if accepts c then (many (one accepts) ++ q).views ⟨some c, t, g⟩ else [] := by
  rw [many1, views_assoc, views_seq, views_one_cons]
  split
  · rw [List.flatMap_singleton]
  · rfl

theorem views_lazy_cons (accepts : Char → Bool) (q : Pattern) (b : Option Char) (c : Char) (t : Text)
    (g : Notes) : (few (one accepts) ++ q).views ⟨b, c :: t, g⟩ =
      q.views ⟨b, c :: t, g⟩ ++
        if accepts c then (few (one accepts) ++ q).views ⟨some c, t, g⟩ else [] := by
  rw [views_seq, views_few_one_cons, List.flatMap_cons]
  split
  · rw [views_seq]
  · rfl

theorem views_lazy_nil (accepts : Char → Bool) (q : Pattern) (b : Option Char) (g : Notes) :
    (few (one accepts) ++ q).views ⟨b, [], g⟩ = q.views ⟨b, [], g⟩ := by
  rw [views_seq, views_few_one_nil, List.flatMap_singleton]

/-- A lazy run fails over a part that what follows skips, if it fails behind it. -/
theorem views_lazy_of_skips : ∀ {s : Text} {b : Option Char}, q.Skips b s t →
    (few (one accepts) ++ q).views ⟨lastOf b s, t, []⟩ = [] →
    (few (one accepts) ++ q).views ⟨b, s ++ t, []⟩ = []
  | [], _, _, ht => by
    rw [lastOf_nil] at ht
    exact ht
  | c :: s, _, ⟨hc, hs⟩, ht => by
    rw [lastOf_cons] at ht
    rw [List.cons_append, views_lazy_cons, hc, List.nil_append, views_lazy_of_skips hs ht, ite_self]

/-- A word does not begin with a character outside words. -/
theorem word_rejects (hc : isWordChar c = false) : word.Rejects c := by
  rintro ⟨b, t, g⟩ hv
  cases t with
  | nil => exact absurd hv (by simp)
  | cons d t =>
    rw [List.head?_cons, Option.some.injEq] at hv
    rw [hv, show word = wordChar ++ wordChar.many from rfl, views_seq, wordChar, views_one_cons, hc]
    rfl

/-- A space and no more blanks. -/
theorem views_blanks_space (hq : q.Rejects ' ') (ht : stopsAt isBlank t = true) (b : Option Char)
    (g : Notes) : (blanks ++ q).views ⟨b, ' ' :: t, g⟩ = q.views ⟨some ' ', t, g⟩ := by
  rw [blanks, views_run_cons (fun _ => hq), if_pos (by decide), views_run_of_stopsAt ht]

/-! ## The best view of a run -/

namespace First

/-- Rounds that take one character each go on to the first place where there is no more round. -/
theorem many (hs : ∀ c ∈ s, ∀ b t, p.First ⟨b, c :: t, g⟩ ⟨some c, t, g⟩)
    (ht : p.views ⟨lastOf b s, t, g⟩ = []) :
    (Pattern.many p).First ⟨b, s ++ t, g⟩ ⟨lastOf b s, t, g⟩ := by
  induction s generalizing b with
  | nil =>
    rw [lastOf_nil] at ht ⊢
    rw [First, views_many, List.nil_append, ht]
    rfl
  | cons c s ih =>
    rw [lastOf_cons] at ht ⊢
    have hrest := ih (fun d hd => hs d (List.mem_cons_of_mem c hd)) ht
    obtain ⟨others, hviews⟩ := List.head?_eq_some_iff.mp (hs c List.mem_cons_self b (s ++ t))
    have hpass : (View.mk (some c) (s ++ t) g).passes ⟨b, c :: (s ++ t), g⟩ = true := by
      simp [View.passes]
    rw [First, views_many, List.cons_append, hviews, List.filter_cons, if_pos hpass,
      List.flatMap_cons, List.append_assoc, List.head?_append, hrest]
    rfl

theorem run (hs : ∀ c ∈ s, accepts c = true) (ht : stopsAt accepts t = true) (b : Option Char)
    (g : Notes) : (Pattern.many (one accepts)).First ⟨b, s ++ t, g⟩ ⟨lastOf b s, t, g⟩ :=
  of_runsTo (runsTo_many hs ht b g)

theorem run1 (hne : s ≠ []) (hs : ∀ c ∈ s, accepts c = true) (ht : stopsAt accepts t = true)
    (b : Option Char) (g : Notes) :
    (many1 (one accepts)).First ⟨b, s ++ t, g⟩ ⟨lastOf b s, t, g⟩ :=
  of_runsTo (runsTo_many1 hne hs ht b g)

end First

end Pattern

end GoDraft
