import GoDraft.Java.ClassName
import GoDraft.Proofs.Pattern.Bare
import GoDraft.Proofs.Pattern.Found
import GoDraft.Proofs.Text.Blanks
import Mathlib.Data.List.TakeWhile
import Mathlib.Data.Nat.Find

/-!
# GoDraft — which class is found

The class of a source text is meant to be the first public one whose declaration begins in code. The
search for it takes declarations outside code as well and drops them afterwards. A declaration outside
code can still take the first word of one in code along: a comment that ends in `public class` takes the
`public` of the next line for the name of its class, and the declaration there is not seen any more.

* `ClassHead` — the declaration of a public class, up to its name;
* `FirstClass` — the first declaration in code;
* `TakenAlong` — a declaration outside code ends with the `public` of another;
* `exists_declaredInCode` — a class that is found is declared in code;
* `findClassName_eq_some_iff_firstClass` — it is the first one, unless that one is taken along.
-/

namespace GoDraft

open Pattern

/-! ## Declarations -/

/-- The declaration of a public class up to its name: the blanks between the words, and the name. -/
structure ClassHead where
  gap : Text
  gap' : Text
  name : Text
  gap_ne : gap ≠ []
  gap_blank : ∀ c ∈ gap, isBlank c = true
  gap'_ne : gap' ≠ []
  gap'_blank : ∀ c ∈ gap', isBlank c = true
  name_ne : name ≠ []
  name_word : ∀ c ∈ name, isWordChar c = true

namespace ClassHead

/-- The text of a declaration. -/
def text (h : ClassHead) : Text := "public" ++ (h.gap ++ ("class" ++ (h.gap' ++ h.name)))

theorem text_eq (h : ClassHead) :
    h.text = "public".toList ++ (h.gap ++ ("class".toList ++ (h.gap' ++ h.name))) := rfl

theorem public_prefix_text (h : ClassHead) : "public".toList <+: h.text := List.prefix_append _ _

theorem text_ne (h : ClassHead) : h.text ≠ [] := List.cons_ne_nil _ _

/-- Where a declaration stands, the pattern reads it. -/
theorem first (h : ClassHead) {rest : Text} (hrest : stopsAt isWordChar rest = true) (b : Option Char) :
    classPattern.First ⟨b, h.text ++ rest, []⟩ ⟨lastOf b h.text, rest, [(1, h.name)]⟩ := by
  obtain ⟨n, name, hname⟩ := List.exists_cons_of_ne_nil h.name_ne
  have hword : stopsAt isBlank (h.name ++ rest) = true := by
    have hn : isBlank n = false :=
      isBlank_of_isWordChar (h.name_word n (by rw [hname]; exact List.mem_cons_self))
    rw [hname, List.cons_append, stopsAt_cons, hn]
    rfl
  have hshape : h.text ++ rest =
      "public".toList ++ (h.gap ++ ("class".toList ++ (h.gap' ++ (h.name ++ rest)))) := by
    simp only [text_eq, List.append_assoc]
  have hlast : lastOf b h.text =
      lastOf (lastOf (lastOf (lastOf (lastOf b "public") h.gap) "class") h.gap') h.name := by
    simp only [text_eq, lastOf_append]
  rw [hshape, hlast]
  exact ((((First.text "public" _ b []).seq (First.run1 h.gap_ne h.gap_blank rfl _ [])).seq
    (First.text "class" _ _ [])).seq (First.run1 h.gap'_ne h.gap'_blank hword _ [])).seq
    (First.group (First.run1 h.name_ne h.name_word hrest _ []) 1)

end ClassHead

/-- What the pattern can read is a declaration. -/
theorem exists_head_of_fits {s : Text} {g : Notes} (h : classPattern.Fits s g) :
    ∃ head : ClassHead, s = head.text := by
  obtain ⟨_, _, name, _, ⟨_, _, gap', _, ⟨_, _, kw', _, ⟨kw, _, gap, _, hkw, hgap, rfl, -⟩, hkw',
    rfl, -⟩, hgap', rfl, -⟩, ⟨_, hname, -⟩, rfl, -⟩ := h
  obtain ⟨rfl, -⟩ := fits_text hkw
  obtain ⟨rfl, -⟩ := fits_text hkw'
  obtain ⟨hgap_ne, hgap⟩ := fits_many1_one hgap
  obtain ⟨hgap'_ne, hgap'⟩ := fits_many1_one hgap'
  obtain ⟨hname_ne, hname⟩ := fits_many1_one hname
  refine ⟨⟨gap, gap', name, hgap_ne, hgap, hgap'_ne, hgap', hname_ne, hname⟩, ?_⟩
  simp only [ClassHead.text_eq, List.append_assoc]

-- The text of a match may end inside the word of the name, so the name is taken on to the end of it.
/-- Where the pattern matches, a declaration stands, with the whole of a word for its name. -/
theorem exists_head_of_matchAt? {b : Option Char} {offset : Nat} {t : Text} {m : Match}
    (hm : classPattern.matchAt? ⟨b, offset, t⟩ = some m) :
    ∃ (head : ClassHead) (rest : Text), t = head.text ++ rest ∧ stopsAt isWordChar rest = true ∧
      m.Is offset head.text [(1, head.name)] := by
  obtain ⟨hstart, hrest, g, hfits, -⟩ := fits_of_matchAt? hm
  obtain ⟨short, htext⟩ := exists_head_of_fits hfits
  rw [htext] at hrest
  set after := m.span.stop.rest with hafter
  let head : ClassHead :=
    { short with
      name := short.name ++ after.takeWhile isWordChar
      name_ne := by simp [short.name_ne]
      name_word := by
        rw [List.forall_mem_append]
        exact ⟨short.name_word, fun c hc => List.mem_takeWhile_imp hc⟩ }
  have hsplit : t = head.text ++ after.dropWhile isWordChar := by
    have hhead : head.text = short.text ++ after.takeWhile isWordChar := by
      simp only [head, ClassHead.text_eq, List.append_assoc]
    rw [hhead, List.append_assoc, List.takeWhile_append_dropWhile]
    exact hrest
  have hstops : stopsAt isWordChar (after.dropWhile isWordChar) = true := stopsAt_dropWhile isWordChar after
  obtain ⟨m', hm', his⟩ := matchAt?_of_views offset (head.first hstops b) rfl
  rw [← hsplit, hm, Option.some.injEq] at hm'
  exact ⟨head, _, hsplit, hstops, hm' ▸ his⟩

/-! ## Declarations in declarations -/

theorem exists_of_append_eq_append {k t s y : Text} {c : Char} (h : k ++ t = s ++ y) (hc : c ∉ k)
    (hy : y.head? = some c) : ∃ s', t = s' ++ y := by
  rcases List.append_eq_append_iff.mp h with ⟨s', -, ht⟩ | ⟨y', hk, rfl⟩
  · exact ⟨s', ht⟩
  · cases y' with
    | nil => exact ⟨[], rfl⟩
    | cons d y' =>
      obtain rfl : d = c := by simpa using hy
      exact absurd (by rw [hk]; simp) hc

theorem takeWhile_append_of_stopsAt {accepts : Char → Bool} {s t : Text}
    (hs : ∀ c ∈ s, accepts c = true) (ht : stopsAt accepts t = true) :
    (s ++ t).takeWhile accepts = s := by
  have hnil : t.takeWhile accepts = [] := by
    cases t with
    | nil => rfl
    | cons c t =>
      rw [stopsAt_cons, Bool.not_eq_true'] at ht
      rw [List.takeWhile_cons_of_neg (by simp [ht])]
  rw [List.takeWhile_append_of_pos hs, hnil, List.append_nil]

namespace ClassHead

theorem head?_text_append (h : ClassHead) (t : Text) : (h.text ++ t).head? = some 'p' := rfl

/-- A place in a declaration at which another begins is in the name. -/
theorem suffix_name_of_inside (h : ClassHead) {s y : Text} (htext : h.text = s ++ y) (hs : s ≠ [])
    (hy : y.head? = some 'p') : ∃ x, h.name = x ++ y := by
  obtain ⟨c, s, rfl⟩ := List.exists_cons_of_ne_nil hs
  have hblank : ∀ gap : Text, (∀ c ∈ gap, isBlank c = true) → 'p' ∉ gap := by
    intro gap hgap hp
    exact absurd (hgap 'p' hp) (by decide)
  have hcut : "ublic".toList ++ (h.gap ++ ("class".toList ++ (h.gap' ++ h.name))) = s ++ y :=
    (List.cons.inj htext).2
  obtain ⟨s₁, hcut⟩ := exists_of_append_eq_append hcut (by decide) hy
  obtain ⟨s₂, hcut⟩ := exists_of_append_eq_append hcut (hblank _ h.gap_blank) hy
  obtain ⟨s₃, hcut⟩ := exists_of_append_eq_append hcut (by decide) hy
  exact exists_of_append_eq_append hcut (hblank _ h.gap'_blank) hy

/-- Where one declaration begins inside another, the name of the other ends in `public`. -/
theorem eq_public_of_inside (h h' : ClassHead) {s y rest rest' : Text} (htext : h.text = s ++ y)
    (hs : s ≠ []) (hy : y ≠ []) (hrest : stopsAt isWordChar rest = true)
    (hinside : y ++ rest = h'.text ++ rest') : y = "public" := by
  have hhead : y.head? = some 'p' := by
    obtain ⟨d, y, rfl⟩ := List.exists_cons_of_ne_nil hy
    exact (congrArg List.head? hinside).trans (h'.head?_text_append rest')
  obtain ⟨x, hname⟩ := h.suffix_name_of_inside htext hs hhead
  have hword : ∀ c ∈ y, isWordChar c = true := fun c hc =>
    h.name_word c (by rw [hname]; exact List.mem_append_right x hc)
  have hpublic : ∀ c ∈ "public".toList, isWordChar c = true := by decide
  obtain ⟨d, gap, hgap⟩ := List.exists_cons_of_ne_nil h'.gap_ne
  have hstops : stopsAt isWordChar (h'.gap ++ ("class".toList ++ (h'.gap' ++ h'.name)) ++ rest') = true := by
    have hd : isWordChar d = false :=
      isWordChar_of_isBlank (h'.gap_blank d (by rw [hgap]; exact List.mem_cons_self))
    rw [hgap, List.cons_append, List.cons_append, stopsAt_cons, hd]
    rfl
  calc y = (y ++ rest).takeWhile isWordChar := (takeWhile_append_of_stopsAt hword hrest).symm
    _ = (h'.text ++ rest').takeWhile isWordChar := by rw [hinside]
    _ = "public" := by
      rw [text_eq, List.append_assoc]
      exact takeWhile_append_of_stopsAt hpublic hstops

end ClassHead

/-! ## The class that is found -/

/-- Behind `pre` a public class of a name is declared, and that place is code. -/
def DeclaredInCode (source pre name : Text) : Prop :=
  ∃ (h : ClassHead) (rest : Text), h.name = name ∧ source = pre ++ (h.text ++ rest) ∧
    stopsAt isWordChar rest = true ∧ isCodeAt source pre.size = true

/-- The first class declared in code is of a name and is declared behind `pre`. -/
structure FirstClass (source pre name : Text) : Prop where
  declared : DeclaredInCode source pre name
  least : ∀ pre' name', DeclaredInCode source pre' name' → pre.size ≤ pre'.size

/-- A declaration outside code ends with the word `public` that stands behind `pre`. -/
def TakenAlong (source pre : Text) : Prop :=
  ∃ (h : ClassHead) (front s rest : Text), source = front ++ (h.text ++ rest) ∧
    stopsAt isWordChar rest = true ∧ isCodeAt source front.size = false ∧ h.text = s ++ "public" ∧
    pre = front ++ s

theorem exists_declaredInCode {source name : Text} (h : findClassName source = some name) :
    ∃ pre, DeclaredInCode source pre name := by
  obtain ⟨m, hm, rfl⟩ := Option.map_eq_some_iff.mp h
  have hcode := List.find?_some hm
  obtain ⟨pre, post, rfl, hmatch, -⟩ := exists_of_mem_findAllFrom (List.mem_of_find?_eq_some hm)
  obtain ⟨head, rest, rfl, hstops, his⟩ := exists_head_of_matchAt? hmatch
  rw [his.start, Nat.zero_add] at hcode
  exact ⟨pre, head, rest, (his.group 0).symm, rfl, hstops, hcode⟩

/-- Before the first class declared in code only places outside code match, and no match reaches into the class. -/
theorem FirstClass.match_before {source pre name : Text} (h : FirstClass source pre name)
    (hapart : ¬ TakenAlong source pre) {head : ClassHead} {rest : Text} (hsource : source = pre ++ (head.text ++ rest))
    {u₁ u₂ : Text} {m : Match} (hpre : pre = u₁ ++ u₂) (hne : u₂ ≠ [])
    (hm : classPattern.matchAt? ⟨lastOf none u₁, 0 + u₁.size, u₂ ++ (head.text ++ rest)⟩ = some m) :
    isCodeAt source m.start = false ∧ m.span.length ≤ u₂.length := by
  obtain ⟨head', rest', hsplit, hstops', his'⟩ := exists_head_of_matchAt? hm
  have hsource' : source = u₁ ++ (head'.text ++ rest') := by
    rw [hsource, hpre, List.append_assoc, hsplit]
  have hout : isCodeAt source u₁.size = false := by
    rw [Bool.eq_false_iff]
    intro hcode'
    have hle := h.least u₁ head'.name ⟨head', rest', rfl, hsource', hstops', hcode'⟩
    have hpos : u₂.size ≠ 0 := fun h0 => hne (Text.size_eq_zero_iff.mp h0)
    rw [hpre, Text.size_append] at hle
    omega
  refine ⟨by rw [his'.start, Nat.zero_add, hout], ?_⟩
  rw [his'.length]
  by_contra hlong
  -- a match that reached into the class would take it along
  rcases List.append_eq_append_iff.mp hsplit with ⟨y, htext, hinside⟩ | ⟨y, htext, -⟩
  · have hy : y ≠ [] := by
      rintro rfl
      rw [htext, List.append_nil] at hlong
      exact hlong (Nat.le_refl _)
    obtain rfl := head'.eq_public_of_inside head htext hne hy hstops' hinside.symm
    exact hapart ⟨head', u₁, u₂, rest', hsource', hstops', hout, htext, hpre⟩
  · rw [htext, List.length_append] at hlong
    omega

/-- The first class declared in code is found, unless it is taken along. -/
theorem FirstClass.findClassName_eq {source pre name : Text} (h : FirstClass source pre name)
    (hapart : ¬ TakenAlong source pre) : findClassName source = some name := by
  obtain ⟨head, rest, rfl, hsource, hstops, hcode⟩ := h.declared
  obtain ⟨m, hmatch, his⟩ :=
    matchAt?_of_views (0 + pre.size) (head.first hstops (lastOf none pre)) rfl
  have hlength : 0 < m.span.length := by
    rw [his.length]
    exact List.length_pos_iff.mpr head.text_ne
  have hok : isCodeAt source m.start = true := by rw [his.start, Nat.zero_add, hcode]
  have hfind := find?_findAllFrom (p := classPattern) hok hlength (Nat.zero_le _) hmatch
    fun _ _ _ hpre hne hm => h.match_before hapart hsource hpre hne hm
  rw [← hsource] at hfind
  rw [findClassName, findAll, hfind]
  exact congrArg some (his.group 0)

theorem exists_firstClass {source pre name : Text} (h : DeclaredInCode source pre name) :
    ∃ pre name, FirstClass source pre name := by
  classical
  have hsome : ∃ n pre name, DeclaredInCode source pre name ∧ pre.size = n := ⟨_, pre, name, h, rfl⟩
  obtain ⟨pre₀, name₀, h₀, hsize⟩ := Nat.find_spec hsome
  refine ⟨pre₀, name₀, h₀, fun pre' name' h' => ?_⟩
  rw [hsize]
  exact Nat.find_min' hsome ⟨pre', name', h', rfl⟩

/-- **The class that is found is the first one declared in code**, unless a declaration outside code ends
with its `public`. None is found exactly when none is declared in code. -/
theorem findClassName_eq_some_iff_firstClass (source : Text)
    (h : ∀ pre name, FirstClass source pre name → ¬ TakenAlong source pre) :
    (∀ name, findClassName source = some name ↔ ∃ pre, FirstClass source pre name) ∧
      (findClassName source = none ↔ ∀ pre name, ¬ DeclaredInCode source pre name) := by
  have hfirst : ∀ pre name, FirstClass source pre name → findClassName source = some name :=
    fun pre name hfirst => hfirst.findClassName_eq (h pre name hfirst)
  refine ⟨fun name => ⟨fun hname => ?_, fun ⟨pre, hpre⟩ => hfirst pre name hpre⟩, ?_, ?_⟩
  · obtain ⟨pre, hpre⟩ := exists_declaredInCode hname
    obtain ⟨pre₀, name₀, hpre₀⟩ := exists_firstClass hpre
    obtain rfl : name₀ = name := by
      rw [hfirst pre₀ name₀ hpre₀, Option.some.injEq] at hname
      exact hname
    exact ⟨pre₀, hpre₀⟩
  · intro hnone pre name hpre
    obtain ⟨pre₀, name₀, hpre₀⟩ := exists_firstClass hpre
    rw [hfirst pre₀ name₀ hpre₀] at hnone
    exact absurd hnone (Option.some_ne_none name₀)
  · intro hnone
    rw [Option.eq_none_iff_forall_ne_some]
    intro name hname
    obtain ⟨pre, hpre⟩ := exists_declaredInCode hname
    exact hnone pre name hpre

/-! ## A class behind a comment -/

theorem ClassHead.isBlank_or_isWordChar_of_mem (h : ClassHead) {c : Char} (hc : c ∈ h.text) :
    isBlank c = true ∨ isWordChar c = true := by
  have hpublic : ∀ c ∈ "public".toList, isWordChar c = true := by decide
  have hclass : ∀ c ∈ "class".toList, isWordChar c = true := by decide
  simp only [text_eq, List.mem_append] at hc
  rcases hc with hc | hc | hc | hc | hc
  · exact .inr (hpublic c hc)
  · exact .inl (h.gap_blank c hc)
  · exact .inr (hclass c hc)
  · exact .inl (h.gap'_blank c hc)
  · exact .inr (h.name_word c hc)

/-- The declarations of a class `A` in a comment and of a class `B` behind it. -/
def commentedThenPublic : Text := "/* public class A */ public class B {}"

theorem eq_of_commentedThenPublic {pre t : Text} (h : commentedThenPublic = pre ++ t)
    (ht : "public".toList <+: t) :
    pre = "/* ".toList ∨ pre = "/* public class A */ ".toList := by
  have hplaces : ∀ n < 39, "public".toList <+: commentedThenPublic.drop n →
      commentedThenPublic.take n = "/* ".toList ∨
        commentedThenPublic.take n = "/* public class A */ ".toList := by decide +kernel
  have htake : commentedThenPublic.take pre.length = pre := by rw [h, List.take_left]
  have hdrop : commentedThenPublic.drop pre.length = t := by rw [h, List.drop_left]
  have hlength : pre.length ≤ commentedThenPublic.length := by rw [h, List.length_append]; omega
  rw [← htake]
  exact hplaces pre.length (Nat.lt_succ_of_le hlength) (hdrop ▸ ht)

theorem not_takenAlong_commentedThenPublic (pre : Text) : ¬ TakenAlong commentedThenPublic pre := by
  rintro ⟨h, front, s, rest, hsource, -, -, htext, -⟩
  have hlong : "public".toList.length < h.text.length := by
    have hname := List.length_pos_iff.mpr h.name_ne
    simp only [ClassHead.text_eq, List.length_append]
    omega
  have hs : s ≠ [] := by
    rintro rfl
    rw [htext] at hlong
    exact absurd hlong (Nat.lt_irrefl _)
  have hfront := eq_of_commentedThenPublic hsource (h.public_prefix_text.trans (List.prefix_append _ rest))
  have hback : front ++ s = "/* ".toList ∨ front ++ s = "/* public class A */ ".toList := by
    apply eq_of_commentedThenPublic (t := "public" ++ rest)
    · rw [hsource, htext, List.append_assoc, List.append_assoc]
    · exact List.prefix_append _ rest
  rcases hfront with rfl | rfl
  · rcases hback with hback | hback
    · exact hs (List.append_right_eq_self.mp hback)
    · have hstar : '*' ∈ h.text := by
        rw [htext, (List.append_cancel_left hback : s = "public class A */ ".toList)]
        decide
      exact absurd (h.isBlank_or_isWordChar_of_mem hstar) (by decide)
  · rcases hback with hback | hback
    · have hlength : 21 + s.length = 3 := List.length_append.symm.trans (congrArg List.length hback)
      omega
    · exact hs (List.append_right_eq_self.mp hback)

theorem firstClass_commentedThenPublic : FirstClass commentedThenPublic "/* public class A */ " "B" := by
  have hcode : isCodeAt commentedThenPublic 21 = true := by decide
  have hcomment : isCodeAt commentedThenPublic 3 = false := by decide
  refine ⟨⟨⟨" ", " ", "B", by decide, by decide, by decide, by decide, by decide, by decide⟩, " {}",
    rfl, rfl, rfl, hcode⟩, ?_⟩
  rintro pre' name' ⟨h, rest, -, hsource, -, hcode'⟩
  rcases eq_of_commentedThenPublic hsource (h.public_prefix_text.trans (List.prefix_append _ rest))
    with rfl | rfl
  · exact absurd (hcode'.symm.trans hcomment) (by decide)
  · exact Nat.le_refl _

theorem findClassName_commentedThenPublic :
    (∀ pre name, FirstClass commentedThenPublic pre name → ¬ TakenAlong commentedThenPublic pre) ∧
      findClassName commentedThenPublic = some "B".toList :=
  ⟨fun pre _ _ => not_takenAlong_commentedThenPublic pre,
    ((findClassName_eq_some_iff_firstClass commentedThenPublic fun pre _ _ =>
      not_takenAlong_commentedThenPublic pre).1 "B").mpr ⟨_, firstClass_commentedThenPublic⟩⟩

/-- A comment that ends in `public class` hides the class of the next line. -/
theorem findClassName_trailingComment_ne :
    DeclaredInCode "// public class\npublic class Foo {}" "// public class\n" "Foo" ∧
      findClassName "// public class\npublic class Foo {}" = none := by
  refine ⟨⟨⟨" ", " ", "Foo", by decide, by decide, by decide, by decide, by decide, by decide⟩, " {}",
    rfl, rfl, rfl, by decide⟩, ?_⟩
  decide

end GoDraft
