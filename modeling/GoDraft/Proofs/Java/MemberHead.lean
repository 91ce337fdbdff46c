import GoDraft.Proofs.Java.ClassName
import GoDraft.Proofs.Java.Source
import GoDraft.Proofs.Pattern.Passes

/-!
# GoDraft — how members begin

Fields and methods begin alike: an access and other words of declarations that can be left out, a type and
a name. The patterns for them differ in the order in which they try the words.

* `IsTypeWord` — words that can be a type;
* `ReadsAccess` — patterns for the word of an access.
-/

namespace GoDraft

open Pattern

/-! ## Words before a type -/

/-- A plain word that can be the type of a declaration. -/
structure IsTypeWord (w : Text) : Prop where
  ne_nil : w ≠ []
  plain : ∀ c ∈ w, c ∈ nameChars
  notMember : w ∉ memberWords

/-- A word of declarations does not stand where a type does. -/
theorem IsTypeWord.views_keyword {w kw t : Text} (h : IsTypeWord w) (hkw : kw ∈ memberWords)
    (ht : stopsAt isWordChar t = true) (q : Pattern) (b : Option Char) (g : Notes) :
    (text kw ++ (blanks1 ++ q)).views ⟨b, w ++ t, g⟩ = [] := by
  have hplain : ∀ kw ∈ memberWords, ∀ k ∈ kw, k ∈ nameChars := by decide
  apply views_word_eq_nil (rejectsAll_seq (by decide) q) (hplain kw hkw) h.plain _ ht
  rintro rfl
  exact h.notMember hkw

/-- A keyword before a type is left out where it does not stand. -/
theorem IsTypeWord.first_without {w kw t : Text} {q : Pattern} {b : Option Char} {g : Notes} {u : View}
    (h : IsTypeWord w) (hkw : kw ∈ memberWords) (ht : stopsAt isWordChar t = true)
    (hq : q.First ⟨b, w ++ t, g⟩ u) : (optional (text kw ++ blanks1) ++ q).First ⟨b, w ++ t, g⟩ u := by
  apply First.left _ hq
  rw [views_assoc]
  exact h.views_keyword hkw ht q b g

theorem IsTypeWord.stopsAt_blank {w : Text} (h : IsTypeWord w) (t : Text) : stopsAt isBlank (w ++ t) = true :=
  stopsAt_of_plain (by decide) h.ne_nil h.plain t

theorem IsTypeWord.first_word {w t : Text} (h : IsTypeWord w) (ht : stopsAt isWordChar t = true)
    (b : Option Char) (g : Notes) : word.First ⟨b, w ++ t, g⟩ ⟨lastOf b w, t, g⟩ :=
  First.run1 h.ne_nil (fun c hc => isWordChar_of_mem_nameChars (h.plain c hc)) ht b g

theorem Word.isTypeWord (w : Word) : IsTypeWord w.text := ⟨w.nonempty, w.plain, w.notMember⟩

/-- A word is not read where another stands. -/
theorem views_text_of_apart {s w : Text} (hs : ¬ s <+: w) (hw : ¬ w <+: s) (b : Option Char) (t : Text)
    (g : Notes) : (text s).views ⟨b, w ++ t, g⟩ = [] := by
  apply views_text_eq_nil
  intro h
  exact (List.prefix_or_prefix_of_prefix h (List.prefix_append w t)).elim hs hw

/-- A member begins with a word. -/
theorem Access.exists_lead_append {w : Text} (hw : IsTypeWord w) (a : Access) (t : Text) :
    ∃ c v, a.lead ++ (w ++ t) = c :: v ∧ c ∈ nameChars := by
  cases a with
  | unmarked =>
    obtain ⟨c, w', rfl⟩ := List.exists_cons_of_ne_nil hw.ne_nil
    exact ⟨c, w' ++ t, rfl, hw.plain c List.mem_cons_self⟩
  | pub | priv | prot => exact ⟨'p', _, rfl, by decide⟩

theorem Access.mem_lead (a : Access) : ∀ c ∈ a.lead, c ∈ ' ' :: nameChars := by
  cases a <;> decide

/-- A pattern reads the words of accesses, and nothing of a type. -/
structure ReadsAccess (p : Pattern) : Prop where
  bare : p.bare = p
  first : ∀ (a : Access) (w : Text), a.word? = some w → ∀ b t g,
    p.First ⟨b, w ++ t, g⟩ ⟨lastOf b w, t, g⟩
  fails : ∀ {w t : Text}, IsTypeWord w → stopsAt isWordChar t = true → ∀ q b g,
    (p ++ (blanks1 ++ q)).views ⟨b, w ++ t, g⟩ = []

theorem bare_text : ∀ t : Text, (text t).bare = text t
  | [] => rfl
  | c :: t => congrArg (Pattern.seq (char c)) (bare_text t)

/-- The words of accesses are read in any order, since none begins with another. -/
theorem readsAccess_words {x y z : Text} (hmember : ∀ w ∈ [x, y, z], w ∈ memberWords)
    (hall : ∀ (a : Access) (w : Text), a.word? = some w → w ∈ [x, y, z])
    (hapart : [x, y, z].Pairwise fun v w => ¬ v <+: w ∧ ¬ w <+: v) :
    ReadsAccess (text x ||| text y ||| text z) where
  bare := by
    show Pattern.alt (.alt (text x).bare (text y).bare) (text z).bare = _
    rw [bare_text, bare_text, bare_text]
    rfl
  first a w hw b t g := by
    simp only [List.pairwise_cons, List.mem_cons, List.not_mem_nil, or_false, forall_eq_or_imp,
      forall_eq] at hapart
    obtain ⟨⟨hxy, hxz⟩, hyz, -⟩ := hapart
    have hw := hall a w hw
    simp only [List.mem_cons, List.not_mem_nil, or_false] at hw
    rcases hw with rfl | rfl | rfl
    · exact (First.text w t b g).altLeft.altLeft
    · exact (First.altRight (views_text_of_apart hxy.1 hxy.2 b t g) (First.text w t b g)).altLeft
    · refine First.altRight ?_ (First.text w t b g)
      rw [views_alt, views_text_of_apart hxz.1 hxz.2, views_text_of_apart hyz.1 hyz.2]
      rfl
  fails hw ht q b g := by
    simp only [List.mem_cons, List.not_mem_nil, or_false, forall_eq_or_imp, forall_eq] at hmember
    rw [views_alt_seq, views_alt_seq, hw.views_keyword hmember.1 ht, hw.views_keyword hmember.2.1 ht,
      hw.views_keyword hmember.2.2 ht]
    rfl

/-- The access of a member is read, if it is marked. -/
theorem ReadsAccess.first_lead {p q : Pattern} {u : View} {w t : Text} (hp : ReadsAccess p)
    (hw : IsTypeWord w) (ht : stopsAt isWordChar t = true) (a : Access)
    (hq : ∀ b, q.First ⟨b, w ++ t, (a.word?.map fun x => (1, x)).toList⟩ u) (b : Option Char) :
    (optional (group 1 p ++ blanks1) ++ q).First ⟨b, a.lead ++ (w ++ t), []⟩ u := by
  cases hword : a.word? with
  | none =>
    have hlead : a.lead = [] := by rw [Access.lead, hword]; rfl
    rw [hword] at hq
    rw [hlead, List.nil_append]
    apply First.left _ (hq b)
    apply views_eq_nil_of_bare
    show ((p.bare ++ blanks1) ++ q.bare).views _ = []
    rw [hp.bare, views_assoc]
    exact hp.fails hw ht q.bare b []
  | some x =>
    have hlead : a.lead = x ++ [' '] := by rw [Access.lead, hword]; rfl
    rw [hword] at hq
    rw [hlead, List.append_assoc, List.singleton_append]
    apply First.taken
    apply First.assoc
    exact (First.group (hp.first a x hword b _ []) 1).seq
      ((first_space1 (hw.stopsAt_blank t)).seq (hq (some ' ')))

/-! ## The characters of headers -/

/-- The characters of a list of parameters. -/
def paramChars : Text := nameChars ++ " ,"

/-- The characters of headers. -/
def headerChars : Text := paramChars ++ "()\x7b"

theorem mem_paramChars {w : Text} (hw : ∀ c ∈ w, c ∈ nameChars) : ∀ c ∈ w, c ∈ paramChars :=
  fun c hc => List.mem_append_left _ (hw c hc)

theorem MethodSource.mem_paramText (p : Word × Word) : ∀ c ∈ paramText p, c ∈ paramChars := by
  rw [paramText, List.forall_mem_append, List.forall_mem_cons]
  exact ⟨mem_paramChars p.1.plain, by decide, mem_paramChars p.2.plain⟩

theorem MethodSource.mem_paramsText (m : MethodSource) : ∀ c ∈ m.paramsText, c ∈ paramChars := by
  have hsep : ∀ c ∈ ", ".toList, c ∈ paramChars := by decide
  refine Text.forall_mem_join hsep fun t ht => ?_
  obtain ⟨p, -, rfl⟩ := List.mem_map.mp ht
  exact mem_paramText p

theorem MethodSource.mem_header (m : MethodSource) : ∀ c ∈ m.header, c ∈ headerChars := by
  have hparam : ∀ w : Text, (∀ c ∈ w, c ∈ paramChars) → ∀ c ∈ w, c ∈ headerChars :=
    fun w hw c hc => List.mem_append_left _ (hw c hc)
  have hlead : ∀ c ∈ ' ' :: nameChars, c ∈ headerChars := by decide
  have hend : ∀ c ∈ ") \x7b".toList, c ∈ headerChars := by decide
  rw [header, List.forall_mem_append, List.forall_mem_append, List.forall_mem_cons, List.forall_mem_append,
    List.forall_mem_cons, List.forall_mem_append]
  exact ⟨fun c hc => hlead c (m.access.mem_lead c hc), hparam _ (mem_paramChars m.returnType.plain), by decide,
    hparam _ (mem_paramChars m.name.plain), by decide, hparam _ m.mem_paramsText, hend⟩

theorem ClassSource.mem_header (c : ClassSource) : ∀ x ∈ c.header, x ∈ headerChars := by
  have hstart : ∀ x ∈ "public class ".toList, x ∈ headerChars := by decide
  have hend : ∀ x ∈ " \x7b".toList, x ∈ headerChars := by decide
  rw [header_eq, List.forall_mem_append, List.forall_mem_append]
  exact ⟨hstart, fun x hx => List.mem_append_left _ (mem_paramChars c.name.plain x hx), hend⟩

theorem MethodSource.getLast?_header (m : MethodSource) : m.header.getLast? = some '{' := by
  have hheader : m.header = (m.access.lead ++ (m.returnType.text ++ ' ' :: (m.name.text ++ '(' ::
      (m.paramsText ++ ") ")))) ++ ['{'] := by simp [header]
  rw [hheader, List.getLast?_concat]

theorem ClassSource.getLast?_header (c : ClassSource) : c.header.getLast? = some '{' := by
  have hheader : c.header = ("public class " ++ (c.name.text ++ " ")) ++ ['{'] := by
    rw [List.append_assoc, List.append_assoc]
    rfl
  rw [hheader, List.getLast?_concat]

end GoDraft
