import GoDraft.Proofs.Pattern.Steps

/-!
# GoDraft — searching part by part

A search goes through a text place by place, so it can be followed part by part: over a part where the
pattern matches nowhere it copies, and over a match it writes the replacement. A part is told together
with the character before it and the text behind it, since a match may look at both.

* `Pattern.Skips` — a pattern matches nowhere in a part of a text;
* `Pattern.replaceFrom_skips`, `Pattern.replaceFrom_first` — replacing over a part, and over a match;
* `Pattern.findAllFrom_skips`, `Pattern.findAllFrom_first` — the same for finding;
* `Pattern.KeywordLed` — patterns that begin with a word of their own, and where they cannot match.
-/

namespace GoDraft

namespace Pattern

variable {p q : Pattern} {b : Option Char} {s t tail : Text}

/-! ## Parts without a match -/

/-- A pattern matches at no place of `t`, which follows the character `b` and which `tail` follows. -/
def Skips (p : Pattern) (b : Option Char) : Text → Text → Prop
  | [], _ => True
  | c :: t, tail => p.views ⟨b, c :: (t ++ tail), []⟩ = [] ∧ p.Skips (some c) t tail

theorem skips_append : ∀ {s : Text} {b : Option Char}, p.Skips b s (t ++ tail) →
    p.Skips (lastOf b s) t tail → p.Skips b (s ++ t) tail
  | [], b, _, ht => by
    rw [lastOf_nil] at ht
    exact ht
  | c :: s, b, ⟨hc, hs⟩, ht => by
    rw [lastOf_cons] at ht
    refine ⟨?_, skips_append hs ht⟩
    rw [show s.append t ++ tail = s ++ (t ++ tail) from List.append_assoc s t tail]
    exact hc

theorem skips_congr (h : ∀ v, p.views v = q.views v) : ∀ {t : Text} {b : Option Char},
    q.Skips b t tail → p.Skips b t tail
  | [], _, _ => trivial
  | _ :: _, _, ⟨hc, ht⟩ => ⟨(h _).trans hc, skips_congr h ht⟩

theorem skips_of_forall_rejects (h : ∀ c ∈ t, p.Rejects c) (b : Option Char) (tail : Text) :
    p.Skips b t tail := by
  induction t generalizing b with
  | nil => exact trivial
  | cons c t ih =>
    exact ⟨h c List.mem_cons_self _ rfl, ih (fun d hd => h d (List.mem_cons_of_mem c hd)) (some c)⟩

theorem replaceFrom_skips (f : Match → Text) :
    ∀ {t : Text} {b : Option Char}, p.Skips b t tail → ∀ offset : Nat,
      p.replaceFrom f b offset 0 (t ++ tail) =
        t ++ p.replaceFrom f (lastOf b t) (offset + t.size) 0 tail
  | [], b, _, offset => by
    rw [lastOf_nil, Text.size_nil, Nat.add_zero, List.nil_append, List.nil_append]
  | c :: t, b, ⟨hc, ht⟩, offset => by
    rw [List.cons_append, replaceFrom_none (matchAt?_eq_none_iff.mpr hc), replaceFrom_skips f ht,
      lastOf_cons, Text.size_cons, Nat.add_assoc, List.cons_append]

theorem findAllFrom_none {before : Option Char} {offset : Nat} {c : Char} {rest : Text}
    (h : p.matchAt? ⟨before, offset, c :: rest⟩ = none) :
    p.findAllFrom before offset 0 (c :: rest) =
      p.findAllFrom (some c) (offset + c.utf8Size) 0 rest := by
  simp only [findAllFrom, h]

theorem findAllFrom_skips :
    ∀ {t : Text} {b : Option Char}, p.Skips b t tail → ∀ offset : Nat,
      p.findAllFrom b offset 0 (t ++ tail) = p.findAllFrom (lastOf b t) (offset + t.size) 0 tail
  | [], b, _, offset => by
    rw [lastOf_nil, Text.size_nil, Nat.add_zero, List.nil_append]
  | c :: t, b, ⟨hc, ht⟩, offset => by
    rw [List.cons_append, findAllFrom_none (matchAt?_eq_none_iff.mpr hc), findAllFrom_skips ht,
      lastOf_cons, Text.size_cons, Nat.add_assoc]

/-! ## Matches -/

theorem replaceFrom_length (f : Match → Text) : ∀ (s tail : Text) (b : Option Char) (offset : Nat),
    p.replaceFrom f b offset s.length (s ++ tail) =
      p.replaceFrom f (lastOf b s) (offset + s.size) 0 tail
  | [], tail, b, offset => by
    rw [lastOf_nil, Text.size_nil, Nat.add_zero, List.length_nil, List.nil_append]
  | c :: s, tail, b, offset => by
    rw [List.length_cons, List.cons_append, replaceFrom_skip, replaceFrom_length f s, lastOf_cons,
      Text.size_cons, Nat.add_assoc]

theorem findAllFrom_length : ∀ (s tail : Text) (b : Option Char) (offset : Nat),
    p.findAllFrom b offset s.length (s ++ tail) =
      p.findAllFrom (lastOf b s) (offset + s.size) 0 tail
  | [], tail, b, offset => by
    rw [lastOf_nil, Text.size_nil, Nat.add_zero, List.length_nil, List.nil_append]
  | c :: s, tail, b, offset => by
    have hskip : p.findAllFrom b offset (s.length + 1) (c :: (s ++ tail)) =
        p.findAllFrom (some c) (offset + c.utf8Size) s.length (s ++ tail) := by
      simp only [findAllFrom]
    rw [List.length_cons, List.cons_append, hskip, findAllFrom_length s, lastOf_cons,
      Text.size_cons, Nat.add_assoc]

/-- A match is replaced, and the search goes on behind it. -/
theorem replaceFrom_first {f : Match → Text} {offset : Nat} {u : View} {out : Text} (hs : s ≠ [])
    (h : p.First ⟨b, s ++ tail, []⟩ u) (hu : u.rest = tail)
    (hout : ∀ m : Match, m.Is offset s u.notes → f m = out) :
    p.replaceFrom f b offset 0 (s ++ tail) =
      out ++ p.replaceFrom f (lastOf b s) (offset + s.size) 0 tail := by
  obtain ⟨m, hm, his⟩ := matchAt?_of_views offset h hu
  obtain ⟨c, s, rfl⟩ := List.exists_cons_of_ne_nil hs
  have hlength : m.span.length = s.length + 1 := his.length
  rw [List.cons_append] at hm ⊢
  rw [replaceFrom_some hm hlength, hout m his, replaceFrom_length, lastOf_cons, Text.size_cons,
    Nat.add_assoc]

/-- A match is found, and the search goes on behind it. -/
theorem findAllFrom_first {offset : Nat} {u : View} (hs : s ≠ [])
    (h : p.First ⟨b, s ++ tail, []⟩ u) (hu : u.rest = tail) :
    ∃ m : Match, m.Is offset s u.notes ∧
      p.findAllFrom b offset 0 (s ++ tail) =
        m :: p.findAllFrom (lastOf b s) (offset + s.size) 0 tail := by
  obtain ⟨m, hm, his⟩ := matchAt?_of_views offset h hu
  refine ⟨m, his, ?_⟩
  obtain ⟨c, s, rfl⟩ := List.exists_cons_of_ne_nil hs
  have hlength : m.span.length = s.length + 1 := his.length
  rw [List.cons_append] at hm ⊢
  have hfind : p.findAllFrom b offset 0 (c :: (s ++ tail)) =
      m :: p.findAllFrom (some c) (offset + c.utf8Size) s.length (s ++ tail) := by
    simp only [findAllFrom, hm, hlength]
  rw [hfind, findAllFrom_length, lastOf_cons, Text.size_cons, Nat.add_assoc]

/-! ## Keywords -/

end Pattern

/-- The ASCII letters, the digits and the underscore. -/
def nameChars : Text :=
  ['A', 'B', 'C', 'D', 'E', 'F', 'G', 'H', 'I', 'J', 'K', 'L', 'M', 'N', 'O', 'P', 'Q', 'R', 'S',
   'T', 'U', 'V', 'W', 'X', 'Y', 'Z', 'a', 'b', 'c', 'd', 'e', 'f', 'g', 'h', 'i', 'j', 'k', 'l',
   'm', 'n', 'o', 'p', 'q', 'r', 's', 't', 'u', 'v', 'w', 'x', 'y', 'z', '0', '1', '2', '3', '4',
   '5', '6', '7', '8', '9', '_']

theorem isWordChar_of_mem_nameChars {c : Char} (h : c ∈ nameChars) : isWordChar c = true := by
  have hall : nameChars.all isWordChar = true := by decide
  exact List.all_eq_true.mp hall c h

namespace Pattern

variable {p q : Pattern} {b : Option Char} {kw tail : Text} {c : Char}

/-- Where a word stands at another word, the other word goes on behind it. -/
theorem exists_head_of_ne {n : Text} (hkw : ∀ k ∈ kw, k ∈ nameChars) (hn : ∀ c ∈ n, c ∈ nameChars)
    (hne : n ≠ kw) (htail : stopsAt isWordChar tail = true) (rest : Text)
    (hrest : n ++ tail = kw ++ rest) : ∃ c ∈ nameChars, rest.head? = some c := by
  rcases List.append_eq_append_iff.mp hrest with ⟨more, hmore, htail'⟩ | ⟨more, hmore, hrest'⟩
  · cases more with
    | nil => exact absurd (by rw [hmore, List.append_nil]) hne.symm
    | cons e more =>
      have he : e ∈ nameChars := hkw e (by rw [hmore]; simp)
      rw [htail', List.cons_append, stopsAt_cons, isWordChar_of_mem_nameChars he] at htail
      exact absurd htail Bool.false_ne_true
  · cases more with
    | nil => exact absurd (by rw [hmore, List.append_nil]) hne
    | cons e more =>
      exact ⟨e, hn e (by rw [hmore]; simp), by rw [hrest', List.cons_append, List.head?_cons]⟩

/-- A word and what cannot go on with it fail at another word. -/
theorem views_word_eq_nil {n : Text} {g : Notes} (hq : q.rejectsAll nameChars = true)
    (hkw : ∀ k ∈ kw, k ∈ nameChars) (hn : ∀ c ∈ n, c ∈ nameChars) (hne : n ≠ kw)
    (htail : stopsAt isWordChar tail = true) : (text kw ++ q).views ⟨b, n ++ tail, g⟩ = [] := by
  rw [List.eq_nil_iff_forall_not_mem]
  intro u hu
  rw [views_seq, List.mem_flatMap] at hu
  obtain ⟨x, hx, hu⟩ := hu
  obtain ⟨hrest, -⟩ := exists_of_mem_views_text hx
  obtain ⟨c, hc, hhead⟩ := exists_head_of_ne hkw hn hne htail x.rest hrest
  rw [rejects_of_rejectsAll hq hc x hhead] at hu
  exact absurd hu List.not_mem_nil

/-- A pattern that begins at the start of a word, with a given word, and then goes on with no
character of a plain name. -/
structure KeywordLed (p : Pattern) (kw : Text) : Prop where
  views : ∃ q : Pattern, q.rejectsAll nameChars = true ∧
    ∀ v, p.views v = (wordEdge ++ (text kw ++ q)).views v
  head : ∃ k rest, kw = k :: rest ∧ k ∈ nameChars
  plain : ∀ k ∈ kw, k ∈ nameChars

namespace KeywordLed

theorem views_eq_nil_of_not_edge (h : p.KeywordLed kw) {v : View} (hv : v.isWordEdge = false) :
    p.views v = [] := by
  obtain ⟨q, -, hviews⟩ := h.views
  rw [hviews]
  apply views_seq_of_eq_nil
  rw [Pattern.views, hv]
  rfl

/-- Where the pattern has a view, its word stands alone. -/
theorem views_eq_nil_of_not_word (h : p.KeywordLed kw) {v : View}
    (hv : ∀ rest, v.rest = kw ++ rest → ∃ c ∈ nameChars, rest.head? = some c) : p.views v = [] := by
  obtain ⟨q, hq, hviews⟩ := h.views
  rw [hviews, List.eq_nil_iff_forall_not_mem]
  intro u hu
  rw [views_seq, List.mem_flatMap] at hu
  obtain ⟨v', hv', hu⟩ := hu
  have hsame : v' = v := by
    rw [Pattern.views] at hv'
    split at hv'
    · exact List.mem_singleton.mp hv'
    · exact absurd hv' List.not_mem_nil
  subst hsame
  rw [views_seq, List.mem_flatMap] at hu
  obtain ⟨x, hx, hu⟩ := hu
  obtain ⟨hrest, -⟩ := exists_of_mem_views_text hx
  obtain ⟨c, hc, hhead⟩ := hv x.rest hrest
  rw [rejects_of_rejectsAll hq hc x hhead] at hu
  exact absurd hu List.not_mem_nil

/-- The pattern does not begin with a character outside words. -/
theorem rejects (h : p.KeywordLed kw) (hc : isWordChar c = false) : p.Rejects c := by
  intro v hv
  apply h.views_eq_nil_of_not_word
  intro rest hrest
  obtain ⟨k, kw', rfl, hk⟩ := h.head
  rw [hrest, List.cons_append, List.head?_cons, Option.some.injEq] at hv
  rw [← hv, isWordChar_of_mem_nameChars hk] at hc
  exact absurd hc.symm Bool.false_ne_true

/-- The pattern does not begin inside a name. -/
theorem skips_inside (h : p.KeywordLed kw) {n : Text} (hn : ∀ c ∈ n, c ∈ nameChars) {d : Char}
    (hd : d ∈ nameChars) (tail : Text) : p.Skips (some d) n tail := by
  induction n generalizing d with
  | nil => exact trivial
  | cons c n ih =>
    have hc : c ∈ nameChars := hn c List.mem_cons_self
    refine ⟨h.views_eq_nil_of_not_edge ?_, ih (fun e he => hn e (List.mem_cons_of_mem c he)) hc⟩
    simp [View.isWordEdge, isWordChar_of_mem_nameChars hd, isWordChar_of_mem_nameChars hc]

/-- Where the pattern does not match at its word, it does not match inside it. -/
theorem skips_keyword (h : p.KeywordLed kw) (hviews : p.views ⟨b, kw ++ tail, []⟩ = []) :
    p.Skips b kw tail := by
  obtain ⟨k, rest, rfl, hk⟩ := h.head
  exact ⟨hviews, h.skips_inside (fun d hd => h.plain d (List.mem_cons_of_mem k hd)) hk tail⟩

/-- The pattern matches nowhere in a name other than its word. -/
theorem skips_name (h : p.KeywordLed kw) {n : Text} (hn : ∀ c ∈ n, c ∈ nameChars) (hkw : n ≠ kw)
    (htail : stopsAt isWordChar tail = true) (b : Option Char) : p.Skips b n tail := by
  have hword := exists_head_of_ne h.plain hn hkw htail
  cases n with
  | nil => exact trivial
  | cons c n =>
    have hn' : ∀ e ∈ n, e ∈ nameChars := fun e he => hn e (List.mem_cons_of_mem c he)
    exact ⟨h.views_eq_nil_of_not_word hword, h.skips_inside hn' (hn c List.mem_cons_self) tail⟩

end KeywordLed

end Pattern

end GoDraft
