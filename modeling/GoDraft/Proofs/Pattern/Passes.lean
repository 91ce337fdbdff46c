import GoDraft.Proofs.Pattern.Bare
import GoDraft.Proofs.Pattern.Parts

/-!
# GoDraft — going through a text with a search

A search for all matches can be followed through a text whose parts are known. Over a part it finds some
matches and goes on behind it. That a pattern matches nowhere in a part is often seen from the first sign
behind a place, a character that is neither part of a word nor a blank: headers of declarations have words
and blanks only up to a sign of their own.

* `Pattern.LeadsTo`, `Pattern.LeadsTo.skips` — patterns with words and blanks up to some sign;
* `Pattern.First.taken`, `Pattern.First.left` — optional parts;
* `Pattern.Finds`, `Pattern.Passes` — a search over a part;
* `Pattern.find?_of_not_infix` — nothing is found without a part that every match needs.
-/

namespace GoDraft

/-- Whether a character is neither part of a word nor a blank. -/
def isSign (c : Char) : Bool := !isWordChar c && !isBlank c

theorem isSign_of_isWordChar {c : Char} (h : isWordChar c = true) : isSign c = false := by
  rw [isSign, h]
  rfl

theorem isSign_of_isBlank {c : Char} (h : isBlank c = true) : isSign c = false := by
  rw [isSign, h, Bool.not_true, Bool.and_false]

/-- Whether a character is part of a word or a blank. -/
def isUnsigned (c : Char) : Bool := !isSign c

theorem isUnsigned_iff {c : Char} : isUnsigned c = true ↔ isSign c = false := by
  rw [isUnsigned, Bool.not_eq_true']

namespace Pattern

variable {p q r : Pattern} {b : Option Char} {offset : Nat} {s t tail : Text} {g : Notes} {v u : View}
  {c : Char}

/-! ## Readings of some characters -/

/-- Every reading of the pattern has only characters of a class. -/
def Keeps (p : Pattern) (accepts : Char → Bool) : Prop := ∀ s g, p.Fits s g → ∀ c ∈ s, accepts c = true

namespace Keeps

variable {accepts : Char → Bool}

theorem wordEdge : Pattern.wordEdge.Keeps accepts := by
  rintro s g ⟨rfl, -⟩ c hc
  exact absurd hc List.not_mem_nil

theorem text (h : ∀ c ∈ t, accepts c = true) : (Pattern.text t).Keeps accepts := by
  intro s g hs
  rw [(fits_text hs).1]
  exact h

theorem seq (hp : p.Keeps accepts) (hq : q.Keeps accepts) : (p ++ q).Keeps accepts := by
  rintro s g ⟨s₁, g₁, s₂, g₂, hs₁, hs₂, rfl, -⟩
  exact List.forall_mem_append.mpr ⟨hp s₁ g₁ hs₁, hq s₂ g₂ hs₂⟩

theorem alt (hp : p.Keeps accepts) (hq : q.Keeps accepts) : (p ||| q).Keeps accepts :=
  fun s g h => h.elim (hp s g) (hq s g)

theorem optional (hp : p.Keeps accepts) : (Pattern.optional p).Keeps accepts := by
  rintro s g (h | ⟨rfl, -⟩)
  · exact hp s g h
  · exact fun c hc => absurd hc List.not_mem_nil

theorem group (hp : p.Keeps accepts) (index : Nat) : (Pattern.group index p).Keeps accepts := by
  rintro s g ⟨g', hs, -⟩
  exact hp s g' hs

theorem run {accepts' : Char → Bool} (h : ∀ c, accepts' c = true → accepts c = true) :
    (many (one accepts')).Keeps accepts :=
  fun _ _ hs c hc => h c (fits_many_one hs c hc)

theorem run1 {accepts' : Char → Bool} (h : ∀ c, accepts' c = true → accepts c = true) :
    (many1 (one accepts')).Keeps accepts :=
  fun _ _ hs c hc => h c ((fits_many1_one hs).2 c hc)

end Keeps

theorem keeps_word : word.Keeps isUnsigned :=
  .run1 fun _ hc => isUnsigned_iff.mpr (isSign_of_isWordChar hc)

theorem keeps_blanks : blanks.Keeps isUnsigned :=
  .run fun _ hc => isUnsigned_iff.mpr (isSign_of_isBlank hc)

theorem keeps_blanks1 : blanks1.Keeps isUnsigned :=
  .run1 fun _ hc => isUnsigned_iff.mpr (isSign_of_isBlank hc)

theorem views_eq_nil_of_forall_not_fits (h : ∀ s r g, t = s ++ r → ¬ p.Fits s g) (b : Option Char) :
    p.views ⟨b, t, []⟩ = [] := by
  rw [List.eq_nil_iff_forall_not_mem]
  intro u hu
  obtain ⟨s, g, hfits, hsplit⟩ := exists_fits_of_mem_views hu
  exact h s u.rest g hsplit hfits

/-! ## The first sign -/

/-- Every reading of the pattern has words and blanks up to a sign of a kind. -/
def LeadsTo (p : Pattern) (ends : Char → Prop) : Prop :=
  ∀ s g, p.Fits s g → ∃ run e rest, s = run ++ e :: rest ∧ (∀ c ∈ run, isSign c = false) ∧
    isSign e = true ∧ ends e

theorem eq_of_first_sign {run run' rest rest' : Text} {e e' : Char} (hrun : ∀ c ∈ run, isSign c = false)
    (hrun' : ∀ c ∈ run', isSign c = false) (he : isSign e = true) (he' : isSign e' = true)
    (h : run ++ e :: rest = run' ++ e' :: rest') : run = run' ∧ e = e' := by
  rcases List.append_eq_append_iff.mp h with ⟨more, hmore, hrest⟩ | ⟨more, hmore, hrest⟩
  · cases more with
    | nil =>
      rw [List.append_nil] at hmore
      rw [List.nil_append, List.cons.injEq] at hrest
      exact ⟨hmore.symm, hrest.1⟩
    | cons d more =>
      rw [List.cons_append, List.cons.injEq] at hrest
      have hd := hrun' d (by rw [hmore]; simp)
      rw [← hrest.1, he] at hd
      exact absurd hd.symm Bool.false_ne_true
  · cases more with
    | nil =>
      rw [List.append_nil] at hmore
      rw [List.nil_append, List.cons.injEq] at hrest
      exact ⟨hmore, hrest.1.symm⟩
    | cons d more =>
      rw [List.cons_append, List.cons.injEq] at hrest
      have hd := hrun d (by rw [hmore]; simp)
      rw [← hrest.1, he'] at hd
      exact absurd hd.symm Bool.false_ne_true

/-- The pattern does not match where another sign comes first. -/
theorem LeadsTo.views_eq_nil {ends : Char → Prop} (h : p.LeadsTo ends) (hs : ∀ c ∈ s, isSign c = false)
    (hc : isSign c = true) (hends : ¬ ends c) (b : Option Char) (t : Text) :
    p.views ⟨b, s ++ c :: t, []⟩ = [] := by
  apply views_eq_nil_of_forall_not_fits
  intro s' r g hsplit hfits
  obtain ⟨run, e, rest, rfl, hrun, he, hend⟩ := h s' g hfits
  rw [List.append_assoc, List.cons_append] at hsplit
  obtain ⟨-, rfl⟩ := eq_of_first_sign hs hrun hc he hsplit
  exact hends hend

/-- A text that ends in a sign falls into words and blanks, a sign and the rest. -/
theorem exists_first_sign (h : t.getLast?.any isSign = true) : ∃ run e rest, t = run ++ e :: rest ∧
    (∀ c ∈ run, isSign c = false) ∧ isSign e = true := by
  induction t with
  | nil => exact absurd h Bool.false_ne_true
  | cons c t ih =>
    by_cases hc : isSign c = true
    · exact ⟨[], c, t, rfl, fun _ hd => absurd hd List.not_mem_nil, hc⟩
    · rw [Bool.not_eq_true] at hc
      cases t with
      | nil =>
        rw [List.getLast?_singleton, Option.any_some, hc] at h
        exact absurd h Bool.false_ne_true
      | cons d t =>
        rw [List.getLast?_cons_cons] at h
        obtain ⟨run, e, rest, hsplit, hrun, he⟩ := ih h
        exact ⟨c :: run, e, rest, by rw [hsplit, List.cons_append], List.forall_mem_cons.mpr ⟨hc, hrun⟩, he⟩

/-- The pattern matches nowhere in a text without its sign that ends in another. -/
theorem LeadsTo.skips {ends : Char → Prop} (h : p.LeadsTo ends) (tail : Text) :
    ∀ {t : Text} {b : Option Char}, (∀ c ∈ t, ¬ ends c) → (∀ c, t.getLast? = some c → isSign c = true) →
      p.Skips b t tail
  | [], _, _, _ => trivial
  | c :: t, b, hends, hlast => by
    obtain ⟨run, e, rest, hsplit, hrun, he⟩ : ∃ run e rest, c :: t = run ++ e :: rest ∧
        (∀ c ∈ run, isSign c = false) ∧ isSign e = true := by
      apply exists_first_sign
      cases hget : (c :: t).getLast? with
      | none => simp at hget
      | some d => exact hlast d hget
    refine ⟨?_, h.skips tail (fun d hd => hends d (List.mem_cons_of_mem c hd)) fun d hd => ?_⟩
    · rw [← List.cons_append, hsplit, List.append_assoc, List.cons_append]
      exact h.views_eq_nil hrun he (hends e (by rw [hsplit]; simp)) b _
    · apply hlast
      rw [List.getLast?_cons, hd]
      rfl

/-! ## Optional parts -/

theorem views_optional_seq (p q : Pattern) (v : View) :
    (optional p ++ q).views v = (p ++ q).views v ++ q.views v := by
  rw [views_seq, optional, views, List.flatMap_append, ← views_seq, views, List.flatMap_singleton]

theorem views_alt (p q : Pattern) (v : View) : (p ||| q).views v = p.views v ++ q.views v := rfl

theorem views_alt_seq (p q r : Pattern) (v : View) :
    ((p ||| q) ++ r).views v = (p ++ r).views v ++ (q ++ r).views v := by
  rw [views_seq, views_alt, List.flatMap_append, ← views_seq, ← views_seq]

namespace First

/-- An optional part that leads on is taken. -/
theorem taken (h : (p ++ q).First v u) : (Pattern.optional p ++ q).First v u := by
  rw [First, views_optional_seq, List.head?_append, h]
  rfl

/-- An optional part that leads nowhere is left out. -/
theorem left (hp : (p ++ q).views v = []) (h : q.First v u) : (Pattern.optional p ++ q).First v u := by
  rw [First, views_optional_seq, hp, List.nil_append]
  exact h

end First

/-! ## Searching over a part -/

/-- From an offset behind the character `b` a search goes through `t`, which `tail` follows, and finds
`ms` there. -/
def Finds (p : Pattern) (b : Option Char) (offset : Nat) (t tail : Text) (ms : List Match) : Prop :=
  p.findAllFrom b offset 0 (t ++ tail) = ms ++ p.findAllFrom (lastOf b t) (offset + t.size) 0 tail

namespace Finds

variable {ms ms' : List Match}

theorem append (hs : p.Finds b offset s (t ++ tail) ms)
    (ht : p.Finds (lastOf b s) (offset + s.size) t tail ms') : p.Finds b offset (s ++ t) tail (ms ++ ms') := by
  rw [Finds, List.append_assoc, hs, ht, lastOf_append, Text.size_append, List.append_assoc, Nat.add_assoc]

theorem of_skips (h : p.Skips b t tail) (offset : Nat) : p.Finds b offset t tail [] :=
  findAllFrom_skips h offset

theorem of_first (ht : t ≠ []) (h : p.First ⟨b, t ++ tail, []⟩ u) (hu : u.rest = tail) (offset : Nat) :
    ∃ m : Match, m.Is offset t u.notes ∧ p.Finds b offset t tail [m] :=
  findAllFrom_first ht h hu

end Finds

theorem any_lastOf {accepts : Char → Bool} (hlast : ∀ c, t.getLast? = some c → accepts c = false)
    (hb : b.any accepts = false) : (lastOf b t).any accepts = false := by
  rw [lastOf]
  cases hget : t.getLast? with
  | none => exact hb
  | some c => exact hlast c hget

/-- A search that comes to a text from outside a word goes through it, whatever follows: what it finds
begins in the text, and it leaves the text outside a word. -/
def Passes (p : Pattern) (t : Text) : Prop :=
  ∀ b : Option Char, b.any isWordChar = false → (lastOf b t).any isWordChar = false ∧
    ∀ offset tail, ∃ ms, p.Finds b offset t tail ms ∧
      ∀ m ∈ ms, ∃ s r, t = s ++ r ∧ r ≠ [] ∧ m.start = offset + s.size

namespace Passes

theorem append (hs : p.Passes s) (ht : p.Passes t) : p.Passes (s ++ t) := by
  intro b hb
  obtain ⟨hlast, hs⟩ := hs b hb
  obtain ⟨hlast', ht⟩ := ht _ hlast
  refine ⟨by rwa [lastOf_append], fun offset tail => ?_⟩
  obtain ⟨ms, hms, hstart⟩ := hs offset (t ++ tail)
  obtain ⟨ms', hms', hstart'⟩ := ht (offset + s.size) tail
  refine ⟨ms ++ ms', hms.append hms', List.forall_mem_append.mpr ⟨fun m hm => ?_, fun m hm => ?_⟩⟩
  · obtain ⟨s₁, r, hsplit, hr, hm⟩ := hstart m hm
    exact ⟨s₁, r ++ t, by rw [hsplit, List.append_assoc], by simp [hr], hm⟩
  · obtain ⟨s₁, r, hsplit, hr, hm⟩ := hstart' m hm
    exact ⟨s ++ s₁, r, by rw [hsplit, List.append_assoc], hr, by rw [hm, Text.size_append, Nat.add_assoc]⟩

/-- Text in which the pattern matches nowhere. -/
theorem of_skips (hlast : ∀ c, t.getLast? = some c → isWordChar c = false)
    (h : ∀ b tail, p.Skips b t tail) : p.Passes t := by
  intro b hb
  exact ⟨any_lastOf hlast hb, fun offset tail =>
    ⟨[], Finds.of_skips (h b tail) offset, fun _ hm => absurd hm List.not_mem_nil⟩⟩

/-- Text that the pattern matches as a whole. -/
theorem of_first (ht : t ≠ []) (hlast : ∀ c, t.getLast? = some c → isWordChar c = false)
    (h : ∀ b tail, b.any isWordChar = false → ∃ u, p.First ⟨b, t ++ tail, []⟩ u ∧ u.rest = tail) :
    p.Passes t := by
  intro b hb
  refine ⟨any_lastOf hlast hb, fun offset tail => ?_⟩
  obtain ⟨u, hu, hrest⟩ := h b tail hb
  obtain ⟨m, his, hfinds⟩ := Finds.of_first ht hu hrest offset
  refine ⟨[m], hfinds, fun m' hm' => ?_⟩
  rw [List.mem_singleton.mp hm']
  exact ⟨[], t, rfl, ht, his.start⟩

end Passes

/-! ## Parts that a match needs -/

theorem findFrom?_of_forall_none : ∀ (t : Text) (b : Option Char) (offset : Nat),
    (∀ post, post <:+ t → ∀ b offset, p.matchAt? ⟨b, offset, post⟩ = none) →
    p.findFrom? b offset t = none
  | [], b, offset, h => h _ List.suffix_rfl b offset
  | c :: t, b, offset, h => by
    rw [findFrom?, h _ List.suffix_rfl b offset]
    exact findFrom?_of_forall_none t _ _ fun post hpost => h post (hpost.trans (List.suffix_cons c t))

/-- Nothing is found in a text without a part that every match needs. -/
theorem find?_of_not_infix {x : Text} (hp : p.Has x) (h : ¬ x <:+: t) : p.find? t = none :=
  findFrom?_of_forall_none t none 0 fun _ hpost b offset =>
    matchAt?_of_not_infix hp (fun hpart => h (hpart.trans hpost.isInfix)) b offset

end Pattern

end GoDraft
