import GoDraft.Body.StatementLines
import GoDraft.Proofs.Pattern.Bare

/-!
# GoDraft — tokens

A statement is a row of tokens: names that can be anything, keywords, and marks between them. A pattern
that matches nowhere in a statement does so because of the keywords and the marks alone, so this is
seen from the tokens without knowing the names.

* `Name`, `Token`, `spell` — names, tokens and the text they spell;
* `isSpaced` — no two words stand side by side;
* `skips_spell` — a pattern is skipped when every token with what follows it passes a test;
* `KeywordLed.skips_spell` — patterns led by a keyword, among tokens that lack it;
* `forall_mem_spell` — a test of the marks that holds of the text.
-/

namespace GoDraft

/-! ## Names and tokens -/

/-- Words that mean something of their own in a statement. -/
def controlWords : List Text :=
  ["return", "new", "throw", "else", "case", "package", "import", "goto", "for", "if", "while", "do",
   "this"]

/-- A name or an operand: ASCII letters, digits and underscores that are no control word. -/
structure Name where
  text : Text
  nonempty : text ≠ []
  plain : ∀ c ∈ text, c ∈ nameChars
  notControl : text ∉ controlWords

/-- A part of a statement. -/
inductive Token where
  | name (n : Name)
  | keyword (w : Text)
  | mark (c : Char)

/-- The text of a token. -/
def Token.text : Token → Text
  | name n => n.text
  | keyword w => w
  | mark c => [c]

/-- The text of a row of tokens. -/
def spell (ts : List Token) : Text := ts.flatMap Token.text

@[simp] theorem spell_nil : spell [] = [] := rfl

@[simp] theorem spell_cons (tok : Token) (ts : List Token) : spell (tok :: ts) = tok.text ++ spell ts :=
  rfl

@[simp] theorem spell_append (ts us : List Token) : spell (ts ++ us) = spell ts ++ spell us :=
  List.flatMap_append

/-- The marks of a text. -/
def marks (m : Text) : List Token := m.map .mark

@[simp] theorem spell_marks (m : Text) : spell (marks m) = m := by
  induction m with
  | nil => rfl
  | cons c m ih => rw [marks, List.map_cons, spell_cons, ← marks, ih]; rfl

/-! ## Words apart -/

/-- Whether a word is a plain one. -/
def isPlainWord (w : Text) : Bool := !w.isEmpty && w.all nameChars.elem

/-- Whether a row of tokens begins with a mark or is empty. -/
def startsMark : List Token → Bool
  | [] => true
  | .mark _ :: _ => true
  | _ => false

/-- Whether a row of tokens has plain words, marks outside words, and no two words side by side. -/
def isSpaced : List Token → Bool
  | [] => true
  | .mark c :: ts => !isWordChar c && isSpaced ts
  | .keyword w :: ts => isPlainWord w && startsMark ts && isSpaced ts
  | .name _ :: ts => startsMark ts && isSpaced ts

/-- Whether a token is a word. -/
def Token.isWord : Token → Bool
  | mark _ => false
  | _ => true

theorem isSpaced_of_cons {tok : Token} {ts : List Token} (h : isSpaced (tok :: ts) = true) :
    isSpaced ts = true := by
  cases tok <;> simp_all [isSpaced]

theorem Token.text_ne_nil {tok : Token} {ts : List Token} (h : isSpaced (tok :: ts) = true) :
    tok.text ≠ [] := by
  cases tok with
  | name n => exact n.nonempty
  | keyword w => simp_all [isSpaced, isPlainWord, Token.text]
  | mark c => exact List.cons_ne_nil _ _

theorem Token.plain_of_isWord {tok : Token} {ts : List Token} (h : isSpaced (tok :: ts) = true)
    (hw : tok.isWord = true) : ∀ c ∈ tok.text, c ∈ nameChars := by
  cases tok with
  | name n => exact n.plain
  | keyword w =>
    intro c hc
    simp only [isSpaced, isPlainWord, Bool.and_eq_true, List.all_eq_true, List.elem_eq_mem,
      decide_eq_true_eq] at h
    exact h.1.1.2 c hc
  | mark c => exact absurd hw Bool.false_ne_true

theorem stopsAt_spell {ts : List Token} {tail : Text} (h : isSpaced ts = true)
    (hstart : startsMark ts = true) (htail : stopsAt isWordChar tail = true) :
    stopsAt isWordChar (spell ts ++ tail) = true := by
  match ts with
  | [] => exact htail
  | .mark c :: ts =>
    rw [isSpaced, Bool.and_eq_true] at h
    exact h.1

/-- A word is followed by a character outside words. -/
theorem stopsAt_of_isWord {tok : Token} {ts : List Token} {tail : Text}
    (h : isSpaced (tok :: ts) = true) (hw : tok.isWord = true)
    (htail : stopsAt isWordChar tail = true) : stopsAt isWordChar (spell ts ++ tail) = true := by
  have hts := isSpaced_of_cons h
  cases tok with
  | name n =>
    rw [isSpaced, Bool.and_eq_true] at h
    exact stopsAt_spell hts h.1 htail
  | keyword w =>
    rw [isSpaced, Bool.and_eq_true, Bool.and_eq_true] at h
    exact stopsAt_spell hts h.1.2 htail
  | mark c => exact absurd hw Bool.false_ne_true

/-! ## Skipping tokens -/

/-- Whether a test holds of every token with the tokens behind it. -/
def everywhere (test : List Token → Bool) : List Token → Bool
  | [] => true
  | tok :: ts => test (tok :: ts) && everywhere test ts

/-- A pattern is skipped over a row of tokens when the test tells so of every one of them. The condition
`before` on the character before a token is kept up. -/
theorem skips_spell {p : Pattern} {tail : Text} (before : Option Char → Prop)
    {test : List Token → Bool}
    (htest : ∀ tok ts b, before b → isSpaced (tok :: ts) = true → test (tok :: ts) = true →
      p.Skips b tok.text (spell ts ++ tail) ∧ before (lastOf b tok.text)) :
    ∀ {ts : List Token} {b : Option Char}, before b → isSpaced ts = true →
      everywhere test ts = true → p.Skips b (spell ts) tail
  | [], _, _, _, _ => trivial
  | tok :: ts, b, hb, hspaced, hall => by
    rw [everywhere, Bool.and_eq_true] at hall
    obtain ⟨hskip, hbefore⟩ := htest tok ts b hb hspaced hall.1
    exact Pattern.skips_append hskip
      (skips_spell before htest hbefore (isSpaced_of_cons hspaced) hall.2)

/-- A pattern that matches at no plain word matches nowhere inside one. -/
theorem Pattern.skips_word {p : Pattern} {tail : Text}
    (h : ∀ w b, w ≠ [] → (∀ c ∈ w, c ∈ nameChars) → p.views ⟨b, w ++ tail, []⟩ = []) :
    ∀ {w : Text} {b : Option Char}, (∀ c ∈ w, c ∈ nameChars) → p.Skips b w tail
  | [], _, _ => trivial
  | c :: w, b, hw =>
    ⟨h (c :: w) b (List.cons_ne_nil _ _) hw, skips_word h fun d hd => hw d (List.mem_cons_of_mem c hd)⟩

/-- Whether a row of tokens has no keyword `kw`. -/
def lacks (kw : Text) (ts : List Token) : Bool :=
  ts.all fun
    | .keyword w => w != kw
    | _ => true

@[simp] theorem lacks_nil (kw : Text) : lacks kw [] = true := rfl

@[simp] theorem lacks_name (kw : Text) (n : Name) (ts : List Token) :
    lacks kw (.name n :: ts) = lacks kw ts := rfl

@[simp] theorem lacks_mark (kw : Text) (c : Char) (ts : List Token) :
    lacks kw (.mark c :: ts) = lacks kw ts := rfl

@[simp] theorem lacks_keyword (kw w : Text) (ts : List Token) :
    lacks kw (.keyword w :: ts) = (w != kw && lacks kw ts) := rfl

@[simp] theorem lacks_append (kw : Text) (ts us : List Token) :
    lacks kw (ts ++ us) = (lacks kw ts && lacks kw us) := List.all_append

@[simp] theorem lacks_marks (kw m : Text) : lacks kw (marks m) = true := by
  simp [lacks, marks]

/-- A pattern led by a control word is skipped where that word is not among the keywords. -/
theorem Pattern.KeywordLed.skips_spell {p : Pattern} {kw : Text} (hp : p.KeywordLed kw)
    (hkw : kw ∈ controlWords) {tail : Text} (htail : stopsAt isWordChar tail = true) :
    ∀ {ts : List Token} {b : Option Char}, isSpaced ts = true → lacks kw ts = true →
      p.Skips b (spell ts) tail
  | [], _, _, _ => trivial
  | tok :: ts, b, hspaced, hlacks => by
    rw [lacks, List.all_cons, Bool.and_eq_true] at hlacks
    have hrest := hp.skips_spell hkw htail (b := lastOf b tok.text) (isSpaced_of_cons hspaced) hlacks.2
    refine Pattern.skips_append ?_ hrest
    cases tok with
    | name n =>
      apply hp.skips_name n.plain _ (stopsAt_of_isWord hspaced rfl htail)
      intro h
      exact n.notControl (h ▸ hkw)
    | keyword w =>
      have hw : w ≠ kw := by simpa using hlacks.1
      exact hp.skips_name (Token.plain_of_isWord hspaced rfl) hw (stopsAt_of_isWord hspaced rfl htail) b
    | mark c =>
      rw [isSpaced, Bool.and_eq_true, Bool.not_eq_true'] at hspaced
      exact ⟨hp.rejects hspaced.1 _ rfl, trivial⟩

/-! ## Keywords in place -/

theorem isNameChar_of_mem {c : Char} (h : c ∈ nameChars) : isNameChar c = true := by
  have hall : (nameChars.all isNameChar) = true := by decide
  exact List.all_eq_true.mp hall c h

theorem startsKeyword_eq_false {b : Option Char} {c d : Char} {w t : Text} (h : c ≠ d) :
    startsKeyword b (c :: t) (d :: w) = false := by
  have hprefix : Text.startsWith (c :: t) (d :: w) = false := by
    rw [Text.startsWith, List.isPrefixOf, beq_false_of_ne h.symm, Bool.false_and]
  rw [startsKeyword, hprefix, Bool.false_and, Bool.false_and]

/-- A word does not begin with another one as a name of its own. -/
theorem startsKeyword_of_ne {b : Option Char} {kw n tail : Text} (hkw : ∀ k ∈ kw, k ∈ nameChars)
    (hn : ∀ c ∈ n, c ∈ nameChars) (hne : n ≠ kw) (htail : stopsAt isWordChar tail = true) :
    startsKeyword b (n ++ tail) kw = false := by
  rw [Bool.eq_false_iff]
  intro h
  rw [startsKeyword, Bool.and_eq_true, Bool.and_eq_true, Text.startsWith,
    List.isPrefixOf_iff_prefix] at h
  obtain ⟨⟨⟨r, hr⟩, -⟩, hnext⟩ := h
  obtain ⟨d, hd, hhead⟩ := Pattern.exists_head_of_ne hkw hn hne htail r hr.symm
  rw [← hr, List.drop_left, hhead, Option.any_some, isNameChar_of_mem hd] at hnext
  exact absurd hnext (by decide)

theorem Text.startsWith_pair {c d e : Char} {t : Text} :
    Text.startsWith (c :: t) [d, e] = true ↔ c = d ∧ t.head? = some e := by
  rw [Text.startsWith, List.isPrefixOf_iff_prefix, List.cons_prefix_cons, List.head?_eq_some_iff]
  exact and_congr eq_comm (exists_congr fun r => eq_comm)

/-- Whether a keyword stands at the start of a text does not hang on what follows behind a part of it, where no name
goes on from that part. -/
theorem startsKeyword_append {b : Option Char} {w s t : Text} (hw : ∀ c ∈ w, isNameChar c = true) (hs : s ≠ [])
    (hseam : ∀ c d, s.getLast? = some c → t.head? = some d → ¬ (isNameChar c = true ∧ isNameChar d = true)) :
    startsKeyword b (s ++ t) w = startsKeyword b s w := by
  have hpart : w <+: s ++ t ↔ w <+: s := by
    refine ⟨fun h => ?_, fun h => h.trans (List.prefix_append s t)⟩
    rcases List.prefix_or_prefix_of_prefix h (List.prefix_append s t) with h' | ⟨w', rfl⟩
    · exact h'
    · -- a keyword that goes on behind the part would be a name that does
      cases w' with
      | nil => exact ⟨[], by simp⟩
      | cons d w' =>
        obtain ⟨r, rfl⟩ := (List.prefix_append_right_inj s).mp h
        have hlast := List.getLast?_eq_some_getLast hs
        exact absurd ⟨hw _ (List.mem_append_left _ (List.getLast_mem hs)), hw d (by simp)⟩ (hseam _ d hlast rfl)
  have hstart : (s ++ t).startsWith w = s.startsWith w := by
    rw [Text.startsWith, Text.startsWith, Bool.eq_iff_iff, List.isPrefixOf_iff_prefix,
      List.isPrefixOf_iff_prefix, hpart]
  rw [startsKeyword, startsKeyword, hstart]
  cases hfound : s.startsWith w with
  | false => rfl
  | true =>
    rw [Text.startsWith, List.isPrefixOf_iff_prefix] at hfound
    obtain ⟨s', rfl⟩ := hfound
    rw [List.append_assoc, List.drop_left, List.drop_left]
    cases s' with
    | cons d s' => rfl
    | nil =>
      rw [List.append_nil] at hs hseam
      -- the keyword is the whole part, and the name must not go on behind it
      have hname := hw _ (List.getLast_mem hs)
      have hlast := List.getLast?_eq_some_getLast hs
      have hend : t.head?.any isNameChar = false := by
        cases ht : t.head? with
        | none => rfl
        | some d => simpa [hname] using hseam _ d hlast ht
      rw [List.nil_append, hend]
      rfl

/-! ## The marks of tokens -/

/-- Whether all marks of a row of tokens pass a test. -/
def marksAll (p : Char → Bool) (ts : List Token) : Bool :=
  ts.all fun
    | .mark c => p c
    | _ => true

section MarksAll

variable {p : Char → Bool}

@[simp] theorem marksAll_nil : marksAll p [] = true := rfl

@[simp] theorem marksAll_name (n : Name) (ts : List Token) :
    marksAll p (.name n :: ts) = marksAll p ts := rfl

@[simp] theorem marksAll_keyword (w : Text) (ts : List Token) :
    marksAll p (.keyword w :: ts) = marksAll p ts := rfl

@[simp] theorem marksAll_mark (c : Char) (ts : List Token) :
    marksAll p (.mark c :: ts) = (p c && marksAll p ts) := rfl

@[simp] theorem marksAll_append (ts us : List Token) :
    marksAll p (ts ++ us) = (marksAll p ts && marksAll p us) := List.all_append

theorem marksAll_marks {m : Text} (h : ∀ c ∈ m, p c = true) : marksAll p (marks m) = true := by
  rw [marksAll, marks, List.all_map, List.all_eq_true]
  exact h

/-- A test that the characters of names and the marks pass holds of the whole text. -/
theorem forall_mem_spell (hname : nameChars.all p = true) : ∀ {ts : List Token}, isSpaced ts = true →
    marksAll p ts = true → ∀ c ∈ spell ts, p c = true
  | [], _, _, _, hc => absurd hc List.not_mem_nil
  | tok :: ts, hspaced, h, c, hc => by
    rw [marksAll, List.all_cons, Bool.and_eq_true] at h
    rw [spell_cons, List.mem_append] at hc
    rcases hc with hc | hc
    · by_cases hw : tok.isWord = true
      · exact List.all_eq_true.mp hname c (Token.plain_of_isWord hspaced hw c hc)
      · cases tok with
        | mark d =>
          rw [Token.text, List.mem_singleton] at hc
          rw [hc]
          exact h.1
        | _ => exact absurd rfl hw
    · exact forall_mem_spell hname (isSpaced_of_cons hspaced) h.2 c hc

theorem not_mem_spell {c : Char} (hc : c ∉ nameChars) {ts : List Token} (hspaced : isSpaced ts = true)
    (h : marksAll (· != c) ts = true) : c ∉ spell ts := by
  intro hmem
  have hname : (nameChars.all (· != c)) = true := by
    rw [List.all_eq_true]
    intro d hd
    rw [bne_iff_ne]
    rintro rfl
    exact hc hd
  exact absurd (forall_mem_spell hname hspaced h c hmem) (by simp)

end MarksAll

end GoDraft
