import GoDraft.Proofs.Pattern.Views

/-!
# GoDraft — following a pattern through a text

Where a text is known by its parts, a pattern can be followed through it part by part. To see that it
matches, it is enough to follow the best view: `Pattern.First` composes along a sequence. To see that
it does not match, every view has to end: after a greedy run over a class of characters, the shorter
views end because what follows in the pattern rejects the characters of the class.

* `Pattern.First` — the best view, with one rule a kind of part;
* `Pattern.canStart`, `Pattern.Rejects` — the characters a pattern can begin with;
* `Pattern.RunsTo.views_seq` — a greedy run leaves one view;
* `Pattern.First.lazyRounds`, `Pattern.First.lazyTo` — a lazy repetition ends at the first place where what
  follows goes on.
-/

namespace GoDraft

/-- Whether a text does not begin with a character of a class. -/
def stopsAt (accepts : Char → Bool) (t : Text) : Bool := !t.head?.any accepts

theorem stopsAt_dropWhile (accepts : Char → Bool) (t : Text) : stopsAt accepts (t.dropWhile accepts) = true := by
  have hhead := List.head?_dropWhile_not accepts t
  rw [stopsAt]
  cases h : (t.dropWhile accepts).head? with
  | none => rfl
  | some c =>
    rw [h] at hhead
    simp [hhead]

@[simp] theorem stopsAt_nil (accepts : Char → Bool) : stopsAt accepts [] = true := rfl

@[simp] theorem stopsAt_cons (accepts : Char → Bool) (c : Char) (t : Text) :
    stopsAt accepts (c :: t) = !accepts c := rfl

namespace Pattern

variable {p q r : Pattern} {v u w : View} {b : Option Char} {s t : Text} {g : Notes}
  {accepts : Char → Bool} {c : Char}

/-! ## Sequences -/

theorem views_seq (p q : Pattern) (v : View) : (p ++ q).views v = (p.views v).flatMap q.views := rfl

theorem views_assoc (p q r : Pattern) (v : View) :
    ((p ++ q) ++ r).views v = (p ++ (q ++ r)).views v := by
  rw [views_seq, views_seq, views_seq, List.flatMap_assoc]
  rfl

theorem views_seq_of_eq_nil (h : p.views v = []) : (p ++ q).views v = [] := by
  rw [views_seq, h, List.flatMap_nil]

theorem views_one_cons (accepts : Char → Bool) (b : Option Char) (c : Char) (t : Text) (g : Notes) :
    (one accepts).views ⟨b, c :: t, g⟩ = if accepts c then [⟨some c, t, g⟩] else [] := rfl

theorem views_one_nil (accepts : Char → Bool) (b : Option Char) (g : Notes) :
    (one accepts).views ⟨b, [], g⟩ = [] := rfl

/-- A fixed text is read where it stands. -/
theorem views_text_append : ∀ (s t : Text) (b : Option Char) (g : Notes),
    (text s).views ⟨b, s ++ t, g⟩ = [⟨lastOf b s, t, g⟩]
  | [], _, _, _ => by
    rw [lastOf_nil]
    rfl
  | c :: s, t, b, g => by
    have hs : text (c :: s) = char c ++ text s := rfl
    have hc : (char c).views ⟨b, c :: (s ++ t), g⟩ = [⟨some c, s ++ t, g⟩] := by
      rw [char, views_one_cons, if_pos (beq_self_eq_true c)]
    rw [hs, views_seq, List.cons_append, hc, List.flatMap_singleton, views_text_append s t, lastOf_cons]

/-- A fixed text is read only where it stands. -/
theorem exists_of_mem_views_text : ∀ {s : Text} {v u : View}, u ∈ (text s).views v →
    v.rest = s ++ u.rest ∧ u.notes = v.notes
  | [], v, u, h => by
    obtain rfl := List.mem_singleton.mp h
    exact ⟨rfl, rfl⟩
  | c :: s, ⟨b, [], g⟩, u, h => by
    rw [show text (c :: s) = char c ++ text s from rfl, views_seq, char, views_one_nil] at h
    simp at h
  | c :: s, ⟨b, d :: t, g⟩, u, h => by
    rw [show text (c :: s) = char c ++ text s from rfl, views_seq, char, views_one_cons] at h
    by_cases hd : d = c
    · subst hd
      rw [if_pos (beq_self_eq_true d), List.flatMap_singleton] at h
      obtain ⟨hrest, hnotes⟩ := exists_of_mem_views_text h
      exact ⟨congrArg (d :: ·) hrest, hnotes⟩
    · simp [hd] at h

theorem views_text_eq_nil (h : ¬ s <+: v.rest) : (text s).views v = [] := by
  rw [List.eq_nil_iff_forall_not_mem]
  intro u hu
  exact h ⟨u.rest, (exists_of_mem_views_text hu).1.symm⟩

theorem views_text_seq (s t : Text) (b : Option Char) (g : Notes) (q : Pattern) :
    (text s ++ q).views ⟨b, s ++ t, g⟩ = q.views ⟨lastOf b s, t, g⟩ := by
  rw [views_seq, views_text_append, List.flatMap_singleton]

theorem views_edge_text_eq_nil (h : q.views ⟨lastOf b s, t, g⟩ = []) :
    (wordEdge ++ (text s ++ q)).views ⟨b, s ++ t, g⟩ = [] := by
  rw [views_seq, views]
  split
  · rw [List.flatMap_singleton, views_text_seq, h]
  · rfl

/-! ## The characters a pattern can begin with -/

/-- Whether a pattern can read nothing. -/
def isNullable : Pattern → Bool
  | .one _ => false
  | .seq p q => p.isNullable && q.isNullable
  | .alt p q => p.isNullable || q.isNullable
  | .group _ p => p.isNullable
  | .empty | .wordEdge | .lineStart | .many _ | .few _ => true

/-- Whether what a pattern reads can begin with a character. -/
def canStart : Pattern → Char → Bool
  | .one accepts, c => accepts c
  | .seq p q, c => p.canStart c || (p.isNullable && q.canStart c)
  | .alt p q, c => p.canStart c || q.canStart c
  | .many p, c | .few p, c | .group _ p, c => p.canStart c
  | .empty, _ | .wordEdge, _ | .lineStart, _ => false

/-- The first character read is one the pattern can begin with. -/
def Starts (p : Pattern) (v u : View) : Prop :=
  v.rest.head?.any p.canStart = true ∨ (p.isNullable = true ∧ u.rest = v.rest)

/-- Rounds that go on at all begin with the first character of the first round. -/
theorem starts_of_mem_most {canBegin : Char → Bool} {step : View → List View} {v u : View}
    (hstep : ∀ u ∈ step v, v.rest.head?.any canBegin = true ∨ u.rest = v.rest) {bound : Text}
    (hu : u ∈ v.most step bound) : v.rest.head?.any canBegin = true ∨ u.rest = v.rest := by
  cases bound with
  | nil =>
    rw [View.most, List.mem_singleton] at hu
    exact Or.inr (congrArg _ hu)
  | cons _ bound =>
    rw [View.most, List.mem_append, List.mem_flatMap] at hu
    rcases hu with ⟨x, hx, -⟩ | hu
    · obtain ⟨hx, hpass⟩ := List.mem_filter.mp hx
      rcases hstep x hx with h | h
      · exact Or.inl h
      · rw [View.passes, h] at hpass
        simp at hpass
    · exact Or.inr (congrArg _ (List.mem_singleton.mp hu))

theorem any_canStart_mono {f f' : Char → Bool} (h : ∀ c, f c = true → f' c = true) {o : Option Char}
    (ho : o.any f = true) : o.any f' = true := by
  cases o with
  | none => exact ho
  | some c => exact h c ho

theorem starts_of_mem_views : ∀ (p : Pattern) (v : View), ∀ u ∈ p.views v, p.Starts v u
  | .empty, v, u, hu => by
    rw [views, List.mem_singleton] at hu
    exact Or.inr ⟨rfl, congrArg _ hu⟩
  | .wordEdge, v, u, hu | .lineStart, v, u, hu => by
    rw [views] at hu
    split at hu
    · exact Or.inr ⟨rfl, congrArg _ (List.mem_singleton.mp hu)⟩
    · simp at hu
  | .one accepts, v, u, hu => by
    rw [views] at hu
    split at hu
    · simp at hu
    · rename_i c rest hrest
      split at hu
      · rename_i hc
        left
        rw [hrest]
        exact hc
      · simp at hu
  | .seq p q, v, u, hu => by
    rw [views, List.mem_flatMap] at hu
    obtain ⟨x, hx, hu⟩ := hu
    -- the second part begins the match only where the first can be empty
    rcases starts_of_mem_views p v x hx with h | ⟨hnull, hrest⟩
    · exact Or.inl (any_canStart_mono (fun c hc => by simp [canStart, hc]) h)
    · rcases starts_of_mem_views q x u hu with h | ⟨hnull', hrest'⟩
      · rw [hrest] at h
        exact Or.inl (any_canStart_mono (fun c hc => by simp [canStart, hc, hnull]) h)
      · exact Or.inr ⟨by simp [isNullable, hnull, hnull'], hrest'.trans hrest⟩
  | .alt p q, v, u, hu => by
    rw [views, List.mem_append] at hu
    rcases hu with hu | hu
    · rcases starts_of_mem_views p v u hu with h | ⟨hnull, hrest⟩
      · exact Or.inl (any_canStart_mono (fun c hc => by simp [canStart, hc]) h)
      · exact Or.inr ⟨by simp [isNullable, hnull], hrest⟩
    · rcases starts_of_mem_views q v u hu with h | ⟨hnull, hrest⟩
      · exact Or.inl (any_canStart_mono (fun c hc => by simp [canStart, hc]) h)
      · exact Or.inr ⟨by simp [isNullable, hnull], hrest⟩
  | .many p, v, u, hu =>
    (starts_of_mem_most (fun u hu => (starts_of_mem_views p v u hu).imp id And.right) hu).imp id
      fun h => ⟨rfl, h⟩
  | .few p, v, u, hu =>
    (starts_of_mem_most (fun u hu => (starts_of_mem_views p v u hu).imp id And.right)
      (View.mem_fewest_iff.mp hu)).imp id fun h => ⟨rfl, h⟩
  | .group index p, v, u, hu => by
    rw [views, List.mem_map] at hu
    obtain ⟨x, hx, rfl⟩ := hu
    exact starts_of_mem_views p v x hx

/-- A pattern that has to read something fails where it cannot begin. -/
theorem views_eq_nil_of_head (hnull : p.isNullable = false) (h : stopsAt p.canStart v.rest = true) :
    p.views v = [] := by
  rw [List.eq_nil_iff_forall_not_mem]
  intro u hu
  rcases starts_of_mem_views p v u hu with h' | ⟨h', -⟩
  · rw [stopsAt, h'] at h
    exact absurd h Bool.false_ne_true
  · rw [h'] at hnull
    exact absurd hnull.symm Bool.false_ne_true

/-- A pattern fails at every text that begins with the character. -/
def Rejects (p : Pattern) (c : Char) : Prop := ∀ v : View, v.rest.head? = some c → p.views v = []

theorem rejects_of_canStart (hnull : p.isNullable = false) (hc : p.canStart c = false) :
    p.Rejects c := by
  intro v hv
  apply views_eq_nil_of_head hnull
  rw [stopsAt, hv]
  simp [hc]

theorem text_rejects {d : Char} (h : c ≠ d) (s : Text) (q : Pattern) : (text (d :: s) ++ q).Rejects c := by
  intro v hv
  apply views_seq_of_eq_nil
  apply views_text_eq_nil
  rintro ⟨r, hr⟩
  rw [← hr, List.cons_append, List.head?_cons, Option.some.injEq] at hv
  exact h hv.symm

/-- Whether a pattern fails at every text that begins with one of some characters. -/
def rejectsAll (p : Pattern) (chars : Text) : Bool :=
  !p.isNullable && chars.all fun c => !p.canStart c

theorem rejects_of_rejectsAll {chars : Text} (h : p.rejectsAll chars = true) (hc : c ∈ chars) :
    p.Rejects c := by
  rw [rejectsAll, Bool.and_eq_true, Bool.not_eq_true', List.all_eq_true] at h
  exact rejects_of_canStart h.1 (by simpa using h.2 c hc)

theorem rejectsAll_seq {chars : Text} (h : p.rejectsAll chars = true) (q : Pattern) :
    (p ++ q).rejectsAll chars = true := by
  have hnull : (p ++ q).isNullable = (p.isNullable && q.isNullable) := rfl
  have hstart (c : Char) : (p ++ q).canStart c = (p.canStart c || (p.isNullable && q.canStart c)) := rfl
  rw [rejectsAll, Bool.and_eq_true, Bool.not_eq_true', List.all_eq_true] at h ⊢
  refine ⟨by rw [hnull, h.1, Bool.false_and], fun c hc => ?_⟩
  rw [hstart, h.1, Bool.false_and, Bool.or_false]
  exact h.2 c hc

theorem rejectsAll_seq_right {chars : Text} (hp : (chars.all fun c => !p.canStart c) = true)
    (hq : q.rejectsAll chars = true) : (p ++ q).rejectsAll chars = true := by
  have hnull : (p ++ q).isNullable = (p.isNullable && q.isNullable) := rfl
  have hstart (c : Char) : (p ++ q).canStart c = (p.canStart c || (p.isNullable && q.canStart c)) := rfl
  rw [rejectsAll, Bool.and_eq_true, Bool.not_eq_true', List.all_eq_true] at hq ⊢
  rw [List.all_eq_true] at hp
  refine ⟨by rw [hnull, hq.1, Bool.and_false], fun c hc => ?_⟩
  have hp := hp c hc
  have hq := hq.2 c hc
  rw [Bool.not_eq_true'] at hp hq
  rw [hstart, hp, hq, Bool.and_false]
  rfl

/-! ## Runs over a class of characters -/

theorem note_append (b b' : Option Char) (s t : Text) (g g' : Notes) (index : Nat) :
    (View.mk b' t g').note index ⟨b, s ++ t, g⟩ = ⟨b', t, (index, s) :: g'⟩ := by
  simp [View.note, View.readTo]

theorem filter_passes_next (b : Option Char) (c : Char) (t : Text) (g : Notes) :
    [View.mk (some c) t g].filter (·.passes ⟨b, c :: t, g⟩) = [⟨some c, t, g⟩] := by
  simp [View.passes]

theorem views_many_one_nil (accepts : Char → Bool) (b : Option Char) (g : Notes) :
    (many (one accepts)).views ⟨b, [], g⟩ = [⟨b, [], g⟩] := rfl

theorem views_many_one_cons (accepts : Char → Bool) (b : Option Char) (c : Char) (t : Text)
    (g : Notes) : (many (one accepts)).views ⟨b, c :: t, g⟩ =
      (if accepts c then (many (one accepts)).views ⟨some c, t, g⟩ else []) ++ [⟨b, c :: t, g⟩] := by
  rw [views_many, views_one_cons]
  split
  · rw [filter_passes_next, List.flatMap_singleton]
  · rfl

theorem views_few_one_nil (accepts : Char → Bool) (b : Option Char) (g : Notes) :
    (few (one accepts)).views ⟨b, [], g⟩ = [⟨b, [], g⟩] := rfl

theorem views_few_one_cons (accepts : Char → Bool) (b : Option Char) (c : Char) (t : Text)
    (g : Notes) : (few (one accepts)).views ⟨b, c :: t, g⟩ =
      ⟨b, c :: t, g⟩ :: if accepts c then (few (one accepts)).views ⟨some c, t, g⟩ else [] := by
  rw [views_few, views_one_cons]
  split
  · rw [filter_passes_next, List.flatMap_singleton]
  · rfl

/-- The best view behind a run, and the others at its characters. -/
def RunsTo (p : Pattern) (v u : View) (s : Text) : Prop :=
  ∃ others, p.views v = u :: others ∧ ∀ x ∈ others, ∃ c ∈ s, x.rest.head? = some c

/-- A greedy run goes to the end of the class first. -/
theorem runsTo_many (hs : ∀ c ∈ s, accepts c = true) (ht : stopsAt accepts t = true)
    (b : Option Char) (g : Notes) :
    (many (one accepts)).RunsTo ⟨b, s ++ t, g⟩ ⟨lastOf b s, t, g⟩ s := by
  induction s generalizing b with
  | nil =>
    refine ⟨[], ?_, fun _ h => absurd h List.not_mem_nil⟩
    rw [List.nil_append, lastOf_nil]
    cases t with
    | nil => rfl
    | cons c t =>
      rw [stopsAt_cons, Bool.not_eq_true'] at ht
      rw [views_many_one_cons, ht]
      rfl
  | cons c s ih =>
    obtain ⟨others, hviews, hothers⟩ :=
      ih (fun d hd => hs d (List.mem_cons_of_mem c hd)) (some c)
    -- the last choice is to stop at once, before `c`
    refine ⟨others ++ [⟨b, c :: (s ++ t), g⟩], ?_, ?_⟩
    · rw [List.cons_append, views_many_one_cons, if_pos (hs c List.mem_cons_self), hviews,
        lastOf_cons, List.cons_append]
    · intro x hx
      rcases List.mem_append.mp hx with hx | hx
      · obtain ⟨d, hd, hhead⟩ := hothers x hx
        exact ⟨d, List.mem_cons_of_mem c hd, hhead⟩
      · rw [List.mem_singleton.mp hx]
        exact ⟨c, List.mem_cons_self, rfl⟩

theorem runsTo_many1 (hne : s ≠ []) (hs : ∀ c ∈ s, accepts c = true)
    (ht : stopsAt accepts t = true) (b : Option Char) (g : Notes) :
    (many1 (one accepts)).RunsTo ⟨b, s ++ t, g⟩ ⟨lastOf b s, t, g⟩ s := by
  obtain ⟨c, s, rfl⟩ := List.exists_cons_of_ne_nil hne
  obtain ⟨others, hviews, hothers⟩ :=
    runsTo_many (fun d hd => hs d (List.mem_cons_of_mem c hd)) ht (some c) g
  refine ⟨others, ?_, ?_⟩
  · rw [many1, views_seq, List.cons_append, views_one_cons, if_pos (hs c List.mem_cons_self),
      List.flatMap_singleton, hviews, lastOf_cons]
  · intro x hx
    obtain ⟨d, hd, hhead⟩ := hothers x hx
    exact ⟨d, List.mem_cons_of_mem c hd, hhead⟩

/-- Behind a run only its best view is left when what follows rejects the characters of the run. -/
theorem RunsTo.views_seq (h : p.RunsTo v u s) (hq : ∀ c ∈ s, q.Rejects c) :
    (p ++ q).views v = q.views u := by
  obtain ⟨others, hviews, hothers⟩ := h
  have hnil : others.flatMap q.views = [] := by
    rw [List.flatMap_eq_nil_iff]
    intro x hx
    obtain ⟨c, hc, hhead⟩ := hothers x hx
    exact hq c hc x hhead
  rw [Pattern.views_seq, hviews, List.flatMap_cons, hnil, List.append_nil]

/-- A lazy run can end behind every part that it can take. -/
theorem mem_views_lazy_of {index : Nat} (hs : ∀ c ∈ s, accepts c = true) :
    ⟨lastOf b s, t, (index, s) :: g⟩ ∈ (group index (few (one accepts))).views ⟨b, s ++ t, g⟩ := by
  have hrun : ∀ (s : Text) (b : Option Char), (∀ c ∈ s, accepts c = true) →
      ⟨lastOf b s, t, g⟩ ∈ (few (one accepts)).views ⟨b, s ++ t, g⟩ := by
    intro s
    induction s with
    | nil =>
      intro b _
      rw [lastOf_nil, List.nil_append, views_few]
      exact List.mem_cons_self
    | cons c s ih =>
      intro b hs
      rw [List.forall_mem_cons] at hs
      rw [lastOf_cons, List.cons_append, views_few_one_cons, if_pos hs.1]
      exact List.mem_cons_of_mem _ (ih (some c) hs.2)
  rw [views, List.mem_map]
  exact ⟨_, hrun s b hs, note_append _ _ s t g g index⟩

/-! ## The best view -/

/-- The best view of a pattern. -/
def First (p : Pattern) (v u : View) : Prop := (p.views v).head? = some u

namespace First

theorem seq (hp : p.First v u) (hq : q.First u w) : (p ++ q).First v w := by
  obtain ⟨others, hviews⟩ := List.head?_eq_some_iff.mp hp
  rw [First, views_seq, hviews, List.flatMap_cons, List.head?_append, hq]
  rfl

/-- The best view of a sequence is the best view of its second part, behind a view of the first. -/
theorem exists_of_seq (h : (p ++ q).First v w) : ∃ u ∈ p.views v, q.First u w := by
  rw [First, views_seq, List.head?_flatMap] at h
  exact List.exists_of_findSome?_eq_some h

theorem assoc (h : (p ++ (q ++ r)).First v w) : ((p ++ q) ++ r).First v w := by
  rw [First, views_assoc]
  exact h

theorem text (s t : Text) (b : Option Char) (g : Notes) :
    (text s).First ⟨b, s ++ t, g⟩ ⟨lastOf b s, t, g⟩ := by
  rw [First, views_text_append]
  rfl

theorem of_runsTo (h : p.RunsTo v u s) : p.First v u := by
  obtain ⟨others, hviews, -⟩ := h
  rw [First, hviews]
  rfl

theorem group {b' : Option Char} {g' : Notes} (h : p.First ⟨b, s ++ t, g⟩ ⟨b', t, g'⟩) (index : Nat) :
    (group index p).First ⟨b, s ++ t, g⟩ ⟨b', t, (index, s) :: g'⟩ := by
  rw [First, views, List.head?_map, h, Option.map_some, note_append]

theorem altLeft (h : p.First v u) : (p ||| q).First v u := by
  have hviews : (p ||| q).views v = p.views v ++ q.views v := rfl
  rw [First, hviews, List.head?_append, h]
  rfl

theorem altRight (hp : p.views v = []) (hq : q.First v u) : (p ||| q).First v u := by
  have hviews : (p ||| q).views v = p.views v ++ q.views v := rfl
  rw [First, hviews, hp, List.nil_append]
  exact hq

theorem wordEdge (h : v.isWordEdge = true) : Pattern.wordEdge.First v v := by
  rw [First, views, if_pos h]
  rfl

/-- A lazy repetition stops where what follows goes on. -/
theorem few_here {follow : View → List View} (h : (follow v).head? = some u) :
    (((few p).views v).flatMap follow).head? = some u := by
  rw [views_few, List.flatMap_cons, List.head?_append, h]
  rfl

/-- A lazy repetition makes a round where what follows fails. -/
theorem few_next {follow : View → List View} (hfail : follow v = []) (hround : p.First v w)
    (hpass : w.passes v = true) (h : (((few p).views w).flatMap follow).head? = some u) :
    (((few p).views v).flatMap follow).head? = some u := by
  obtain ⟨others, hviews⟩ := List.head?_eq_some_iff.mp hround
  rw [views_few, List.flatMap_cons, hfail, List.nil_append, hviews, List.filter_cons, if_pos hpass,
    List.flatMap_cons, List.flatMap_append, List.head?_append, h]
  rfl

/-- Lazy rounds go on as long as what follows fails. -/
theorem lazyRounds {index : Nat} {ss : List Text}
    (hround : ∀ s ∈ ss, s ≠ [] ∧ ∀ b t, p.First ⟨b, s ++ t, g⟩ ⟨lastOf b s, t, g⟩)
    (hfail : ∀ done todo, ss = done ++ todo → todo ≠ [] →
      q.views ⟨lastOf b done.flatten, todo.flatten ++ t, (index, done.flatten) :: g⟩ = [])
    (hq : q.First ⟨lastOf b ss.flatten, t, (index, ss.flatten) :: g⟩ u) :
    (Pattern.group index (few p) ++ q).First ⟨b, ss.flatten ++ t, g⟩ u := by
  -- the rounds have taken `done`, and those of `todo` are left
  have hrun : ∀ todo done : List Text, ss = done ++ todo →
      (((few p).views ⟨lastOf b done.flatten, todo.flatten ++ t, g⟩).flatMap fun x =>
        q.views (x.note index ⟨b, ss.flatten ++ t, g⟩)).head? = some u := by
    intro todo
    induction todo with
    | nil =>
      intro done hsplit
      rw [List.append_nil] at hsplit
      subst hsplit
      apply few_here
      rw [List.flatten_nil, List.nil_append, note_append]
      exact hq
    | cons s todo ih =>
      intro done hsplit
      obtain ⟨hne, hfirst⟩ := hround s (by rw [hsplit]; simp)
      have hnext := ih (done ++ [s]) (by rw [hsplit, List.append_assoc]; rfl)
      rw [List.flatten_append, List.flatten_singleton, lastOf_append] at hnext
      have hpass : (View.mk (lastOf (lastOf b done.flatten) s) (todo.flatten ++ t) g).passes
          ⟨lastOf b done.flatten, s ++ (todo.flatten ++ t), g⟩ = true := by
        simpa [View.passes] using List.length_pos_iff.mpr hne
      rw [List.flatten_cons, List.append_assoc]
      refine few_next ?_ (hfirst _ _) hpass hnext
      have hhere := hfail done (s :: todo) hsplit (List.cons_ne_nil s todo)
      rw [List.flatten_cons, List.append_assoc] at hhere
      rw [hsplit, List.flatten_append, List.flatten_cons, List.append_assoc, List.append_assoc, note_append]
      exact hhere
  rw [First, views_seq, views, List.flatMap_map]
  exact hrun ss [] rfl

/-- A lazy run ends at the first place where what follows goes on. -/
theorem lazyTo {index : Nat} (hs : ∀ c ∈ s, accepts c = true)
    (hfail : ∀ s₁ s₂, s = s₁ ++ s₂ → s₂ ≠ [] → q.views ⟨lastOf b s₁, s₂ ++ t, (index, s₁) :: g⟩ = [])
    (hq : q.First ⟨lastOf b s, t, (index, s) :: g⟩ u) :
    (Pattern.group index (few (one accepts)) ++ q).First ⟨b, s ++ t, g⟩ u := by
  -- every round takes one character
  have hflat (s : Text) : (s.map fun c => [c]).flatten = s := List.flatMap_singleton' s
  rw [← hflat s] at hq ⊢
  refine lazyRounds ?_ ?_ hq
  · intro x hx
    obtain ⟨c, hc, rfl⟩ := List.mem_map.mp hx
    refine ⟨List.cons_ne_nil c [], fun b t => ?_⟩
    rw [First, List.singleton_append, views_one_cons, if_pos (hs c hc)]
    rfl
  · intro done todo hsplit hne
    obtain ⟨s₁, s₂, hs, rfl, rfl⟩ := List.map_eq_append_iff.mp hsplit
    rw [hflat, hflat]
    exact hfail s₁ s₂ hs fun h => hne (by rw [h]; rfl)

theorem lazy {index : Nat} (hs : ∀ c ∈ s, accepts c = true) (hreject : ∀ c ∈ s, q.Rejects c)
    (hq : q.First ⟨lastOf b s, t, (index, s) :: g⟩ u) :
    (Pattern.group index (few (one accepts)) ++ q).First ⟨b, s ++ t, g⟩ u := by
  refine lazyTo hs (fun s₁ s₂ hsplit hne => ?_) hq
  obtain ⟨c, s₂, rfl⟩ := List.exists_cons_of_ne_nil hne
  exact hreject c (by rw [hsplit]; simp) _ rfl

end First

end Pattern

end GoDraft
