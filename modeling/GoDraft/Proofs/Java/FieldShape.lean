import GoDraft.Proofs.Java.FieldFindings
import GoDraft.Proofs.Java.MemberHead

/-!
# GoDraft — text of the shape of a field

Text of the shape of a field has at least two words with a blank between them, and the first sign behind
its words is an equals sign or a semicolon. So no header has it, and of the statements only declarations
and what is given back. Where a field stands, the pattern reads it as a whole.

* `fieldPattern_leadsTo`, `views_fieldPattern_of_oneWord` — where no field can begin;
* `fieldNotes`, `fieldPattern_first` — where a field stands;
* `passes_lone`, `passes_fieldText` — a search for fields goes through words that stand alone, and through
  fields.
-/

namespace GoDraft

open Pattern

/-! ## The shape of a field -/

/-- Text of the shape of a field: words and blanks, with a blank before one of the words, and a sign. -/
theorem exists_of_fits_fieldPattern {s : Text} {g : Notes} (h : fieldPattern.Fits s g) :
    ∃ front d back e rest, s = (front ++ d :: back) ++ e :: rest ∧
      (∀ c ∈ front ++ d :: back, isSign c = false) ∧ isSign e = true ∧ (e = '=' ∨ e = ';') ∧
      isWordChar d = true ∧ ∃ c ∈ front, isBlank c = true := by
  obtain ⟨_, _, semicolon, _, ⟨_, _, value, _, ⟨_, _, name, _, ⟨_, _, gap, _, ⟨lead, _, type, _, hlead,
    ⟨_, htype, -⟩, rfl, -⟩, hgap, rfl, -⟩, ⟨_, hname, -⟩, rfl, -⟩, hvalue, rfl, -⟩, hsemicolon, rfl, -⟩ := h
  obtain ⟨rfl, -⟩ := fits_text hsemicolon
  -- up to the name there are only words and blanks, so the sign behind is the first
  have hwords : ∀ c ∈ lead ++ type ++ gap ++ name, isSign c = false := by
    have hkeeps : (wordEdge ++ optional (group 1 ("private" ||| "public" ||| "protected") ++ blanks1)
        ++ optional ("final" ++ blanks1)).Keeps isUnsigned :=
      (Keeps.wordEdge.seq (Keeps.optional ((((Keeps.text (by decide)).alt (.text (by decide))).alt
        (.text (by decide))).group 1 |>.seq keeps_blanks1))).seq
        (Keeps.optional ((Keeps.text (by decide)).seq keeps_blanks1))
    simp only [List.forall_mem_append]
    exact ⟨⟨⟨fun c hc => isUnsigned_iff.mp (hkeeps _ _ hlead c hc),
      fun c hc => isUnsigned_iff.mp (keeps_word _ _ htype c hc)⟩,
      fun c hc => isUnsigned_iff.mp (keeps_blanks1 _ _ hgap c hc)⟩,
      fun c hc => isUnsigned_iff.mp (keeps_word _ _ hname c hc)⟩
  obtain ⟨hgap_ne, hgap⟩ := fits_many1_one hgap
  obtain ⟨hname_ne, hname⟩ := fits_many1_one hname
  obtain ⟨x, gap, rfl⟩ := List.exists_cons_of_ne_nil hgap_ne
  obtain ⟨d, name, rfl⟩ := List.exists_cons_of_ne_nil hname_ne
  have hblank : ∃ c ∈ lead ++ type ++ x :: gap, isBlank c = true :=
    ⟨x, by simp, hgap x List.mem_cons_self⟩
  rcases hvalue with ⟨_, _, value, _, ⟨_, _, gap₂, _, ⟨gap₁, _, sign, _, hgap₁, hsign, rfl, -⟩, hgap₂, rfl, -⟩,
    -, rfl, -⟩ | ⟨rfl, -⟩
  · obtain ⟨rfl, -⟩ := fits_text hsign
    refine ⟨lead ++ type ++ x :: gap, d, name ++ gap₁, '=', gap₂ ++ value ++ ";", by simp, ?_, by decide,
      .inl rfl, hname d List.mem_cons_self, hblank⟩
    have hgap₁ : ∀ c ∈ gap₁, isSign c = false := fun c hc => isUnsigned_iff.mp (keeps_blanks _ _ hgap₁ c hc)
    have hall := List.forall_mem_append.mpr ⟨hwords, hgap₁⟩
    rwa [List.append_assoc] at hall
  · exact ⟨lead ++ type ++ x :: gap, d, name, ';', [], by simp, hwords, by decide, .inr rfl,
      hname d List.mem_cons_self, hblank⟩

theorem fieldPattern_leadsTo : fieldPattern.LeadsTo fun e => e = '=' ∨ e = ';' := by
  intro s g h
  obtain ⟨front, d, back, e, rest, rfl, hwords, he, hend, -, -⟩ := exists_of_fits_fieldPattern h
  exact ⟨front ++ d :: back, e, rest, rfl, hwords, he, hend⟩

/-- A single word does not begin a field. -/
theorem views_fieldPattern_of_oneWord {w gap : Text} {c : Char} (hw : ∀ x ∈ w, isWordChar x = true)
    (hgap : ∀ x ∈ gap, isBlank x = true) (hc : isSign c = true) (b : Option Char) (t : Text) :
    fieldPattern.views ⟨b, (w ++ gap) ++ c :: t, []⟩ = [] := by
  apply views_eq_nil_of_forall_not_fits
  intro s r g hsplit hfits
  obtain ⟨front, d, back, e, rest, rfl, hwords, he, -, hd, x, hx, hblank⟩ := exists_of_fits_fieldPattern hfits
  have hrun : ∀ x ∈ w ++ gap, isSign x = false :=
    List.forall_mem_append.mpr ⟨fun x hx => isSign_of_isWordChar (hw x hx),
      fun x hx => isSign_of_isBlank (hgap x hx)⟩
  rw [List.append_assoc (front ++ d :: back), List.cons_append] at hsplit
  obtain ⟨hsame, -⟩ := eq_of_first_sign hrun hwords hc he hsplit
  rcases List.append_eq_append_iff.mp hsame with ⟨more, -, hback⟩ | ⟨more, hmore, -⟩
  · have hdblank := hgap d (by rw [hback]; simp)
    rw [isBlank_of_isWordChar hd] at hdblank
    exact Bool.false_ne_true hdblank
  · have hxword := hw x (by rw [hmore]; exact List.mem_append_left _ hx)
    rw [isWordChar_of_isBlank hblank] at hxword
    exact Bool.false_ne_true hxword

/-- The marks of statements. -/
def lineMarks : Text := " \t\n=+;:&.,()\x7b\x7d<>!"

/-- A field begins with a word. -/
theorem fieldPattern_rejects {c : Char} (h : c ∈ lineMarks) : fieldPattern.Rejects c := by
  have hall : fieldPattern.rejectsAll lineMarks = true := by decide
  exact rejects_of_rejectsAll hall h

/-! ## Where a field stands -/

/-- What one round of a value reads: a character, or a string literal without escapes. -/
def ValuePart (s : Text) : Prop :=
  (∃ c, s = [c] ∧ c ∉ ";\"".toList) ∨ ∃ content, s = '"' :: (content ++ ['"']) ∧ ∀ c ∈ content, c ∉ "\"\\".toList

/-- Text that can be the value of a field. -/
def IsValue (value : Text) : Prop :=
  value.head?.any isBlank = false ∧ ∃ parts : List Text, value = parts.flatten ∧ ∀ s ∈ parts, ValuePart s

/-- One round of a value. -/
def valueRound : Pattern := stringLiteral ||| noneOf ";\""

theorem stringLiteral_first {content : Text} (h : ∀ c ∈ content, c ∉ "\"\\".toList) (b : Option Char) (t : Text)
    (g : Notes) : stringLiteral.First ⟨b, '"' :: (content ++ ['"']) ++ t, g⟩ ⟨some '"', t, g⟩ := by
  have hopen : (text ['"']).First ⟨b, ['"'] ++ (content ++ '"' :: t), g⟩ ⟨some '"', content ++ '"' :: t, g⟩ :=
    First.text _ _ b g
  have hcontent : (many (noneOf "\"\\" ||| ("\\" ++ noneOf "\n"))).First ⟨some '"', content ++ '"' :: t, g⟩
      ⟨lastOf (some '"') content, '"' :: t, g⟩ := by
    apply First.many
    · intro c hc b t
      apply First.altLeft
      rw [First, noneOf, views_one_cons, if_pos (by simpa using h c hc)]
      rfl
    · rfl
  have hclose : (text ['"']).First ⟨lastOf (some '"') content, ['"'] ++ t, g⟩ ⟨some '"', t, g⟩ :=
    First.text _ _ _ g
  have hall := (hopen.seq hcontent).seq hclose
  rw [List.cons_append, List.append_assoc]
  exact hall

theorem ValuePart.ne_nil {s : Text} (h : ValuePart s) : s ≠ [] := by
  rcases h with ⟨c, rfl, -⟩ | ⟨content, rfl, -⟩ <;> exact List.cons_ne_nil _ _

theorem ValuePart.first {s : Text} (h : ValuePart s) (b : Option Char) (t : Text) (g : Notes) :
    valueRound.First ⟨b, s ++ t, g⟩ ⟨lastOf b s, t, g⟩ := by
  rcases h with ⟨c, rfl, hc⟩ | ⟨content, rfl, hcontent⟩
  · have hquote : c ≠ '"' := by
      rintro rfl
      exact hc (by decide)
    apply First.altRight
    · exact (views_assoc _ _ _ _).trans (text_rejects hquote [] _ _ rfl)
    · rw [First, noneOf, List.singleton_append, views_one_cons, if_pos (by simpa using hc)]
      rfl
  · have hlast : lastOf b ('"' :: (content ++ ['"'])) = some '"' := by
      rw [lastOf_cons, lastOf_append]
      rfl
    rw [hlast]
    exact (stringLiteral_first hcontent b t g).altLeft

theorem ValuePart.views_semicolon {s : Text} (h : ValuePart s) (b : Option Char) (t : Text) (g : Notes) :
    (text [';']).views ⟨b, s ++ t, g⟩ = [] := by
  apply views_text_eq_nil
  rintro ⟨r, hr⟩
  rcases h with ⟨c, rfl, hc⟩ | ⟨content, rfl, -⟩
  · obtain rfl : ';' = c := (List.cons.inj hr).1
    exact hc (by decide)
  · exact absurd (List.cons.inj hr).1 (by decide)

/-- The value of a field and its semicolon. -/
def valuePattern : Pattern :=
  optional (blanks ++ "=" ++ blanks ++ group 4 (few valueRound)) ++ ";"

theorem valuePattern_first {value? : Option Text} (h : ∀ value ∈ value?, IsValue value) (b : Option Char)
    (t : Text) (g : Notes) : valuePattern.First ⟨b, valueText value? ++ ';' :: t, g⟩
      ⟨some ';', t, (value?.map fun value => (4, value)).toList ++ g⟩ := by
  cases value? with
  | none => exact First.left (rejects_of_canStart (by decide) (by decide) _ rfl) (First.text [';'] t b g)
  | some value =>
    obtain ⟨hhead, parts, rfl, hparts⟩ := h value rfl
    have hstops : stopsAt isBlank (parts.flatten ++ ';' :: t) = true := by
      rw [stopsAt]
      cases hflat : parts.flatten with
      | nil => rfl
      | cons c v =>
        rw [hflat] at hhead
        rw [List.cons_append, List.head?_cons]
        exact congrArg (!·) hhead
    have hvalue : (group 4 (few valueRound) ++ text [';']).First ⟨some ' ', parts.flatten ++ ';' :: t, g⟩
        ⟨some ';', t, (4, parts.flatten) :: g⟩ := First.lazyRounds
      (fun s hs => ⟨(hparts s hs).ne_nil, fun b t => (hparts s hs).first b t g⟩)
      (fun done todo hsplit hne => by
        obtain ⟨s, rest, rfl⟩ := List.exists_cons_of_ne_nil hne
        rw [List.flatten_cons, List.append_assoc]
        exact (hparts s (by rw [hsplit]; simp)).views_semicolon _ _ _)
      (First.text [';'] t _ _)
    refine First.taken (First.assoc (First.assoc (First.assoc ?_)))
    exact (first_space rfl).seq ((First.text ['='] _ _ g).seq ((first_space hstops).seq hvalue))

/-- What the groups hold where a field stands. -/
def fieldNotes (access : Access) (type name : Text) (value? : Option Text) : Notes :=
  (value?.map fun value => (4, value)).toList ++ (3, name) :: (2, type)
    :: (access.word?.map fun w => (1, w)).toList

theorem readsAccess_field : ReadsAccess ("private" ||| "public" ||| "protected") :=
  readsAccess_words (by decide) (fun a w hw => by cases a <;> simp_all [Access.word?]) (by decide)

/-- Where a field stands, the pattern reads it as a whole. -/
theorem fieldPattern_first {type name : Text} {value? : Option Text} (htype : IsTypeWord type)
    (hname : name ≠ []) (hplain : ∀ c ∈ name, c ∈ nameChars) (hvalue : ∀ value ∈ value?, IsValue value)
    (access : Access) {b : Option Char} (hb : b.any isWordChar = false) (t : Text) :
    fieldPattern.First ⟨b, fieldText access type name value? ++ t, []⟩
      ⟨some ';', t, fieldNotes access type name value?⟩ := by
  have hend : stopsAt isWordChar (valueText value? ++ ';' :: t) = true := by
    cases value? <;> rfl
  have hstops : stopsAt isBlank (name ++ (valueText value? ++ ';' :: t)) = true :=
    stopsAt_of_plain (by decide) hname hplain _
  have hedge : (View.mk b (access.lead ++ (type ++ ' ' :: (name ++ (valueText value? ++ ';' :: t)))) []).isWordEdge
      = true := by
    obtain ⟨c, v, hv, hc⟩ := access.exists_lead_append htype (' ' :: (name ++ (valueText value? ++ ';' :: t)))
    rw [hv, View.isWordEdge, hb, List.head?_cons, Option.any_some, isWordChar_of_mem_nameChars hc]
    rfl
  have htext : fieldText access type name value? ++ t =
      access.lead ++ (type ++ ' ' :: (name ++ (valueText value? ++ ';' :: t))) := by
    simp [fieldText]
  rw [htext]
  refine First.assoc (First.assoc (First.assoc (First.assoc (First.assoc (First.assoc ?_)))))
  refine (First.wordEdge hedge).seq (readsAccess_field.first_lead htype rfl access (fun b' => ?_) b)
  refine htype.first_without (by decide) rfl ?_
  refine (First.group (htype.first_word rfl b' _) 2).seq ((first_space1 hstops).seq ?_)
  exact (First.group (First.run1 hname (fun c hc => isWordChar_of_mem_nameChars (hplain c hc)) hend _ _) 3).seq
    (valuePattern_first hvalue _ t _)

/-- What a match that has read a field declares. -/
theorem fieldOf_of_is {access : Access} {type name : Text} {value? : Option Text} {m : Match} {offset : Nat}
    {s : Text} (h : m.Is offset s (fieldNotes access type name value?)) :
    fieldOf m = { access, typeName := type, name, default? := value?.map Text.trim } := by
  have haccess : Access.ofWord ((fieldNotes access type name value?).lookup 1) = access := by
    cases value? <;> cases access <;> rfl
  have htype : (fieldNotes access type name value?).text 2 = type := by cases value? <;> rfl
  have hname : (fieldNotes access type name value?).text 3 = name := by cases value? <;> rfl
  have hvalue : (fieldNotes access type name value?).lookup 4 = value? := by
    cases value? <;> cases access <;> rfl
  rw [fieldOf, h.group? 0, h.group 1, h.group 2, h.group? 3, haccess, htype, hname, hvalue]

/-! ## Values -/

/-- Text without semicolons and quotes can be a value. -/
theorem isValue_of_forall {value : Text} (hhead : value.head?.any isBlank = false)
    (h : ∀ c ∈ value, c ∉ ";\"".toList) : IsValue value := by
  refine ⟨hhead, value.map fun c => [c], (List.flatMap_singleton' value).symm, fun s hs => ?_⟩
  obtain ⟨c, hc, rfl⟩ := List.mem_map.mp hs
  exact .inl ⟨c, rfl, h c hc⟩

theorem Name.isValue (n : Name) : IsValue n.text := by
  obtain ⟨c, hc, hblank⟩ := n.exists_head
  apply isValue_of_forall
  · rw [hc]
    exact hblank
  · have hall : (nameChars.all fun c => !";\"".toList.elem c) = true := by decide
    intro c hc
    simpa using List.all_eq_true.mp hall c (n.plain c hc)

theorem Initial.isValue (i : Initial) : IsValue i.text := by
  cases i with
  | word w => exact w.toName.isValue
  | literal content plain =>
    refine ⟨rfl, [(Initial.literal content plain).text], by simp, fun s hs => ?_⟩
    rw [List.mem_singleton.mp hs]
    refine .inr ⟨content, rfl, fun c hc hstop => plain c hc ?_⟩
    have hsub : ∀ c ∈ "\"\\".toList, c ∈ literalStops := by decide
    exact hsub c hstop

/-! ## Statements -/

/-- Whether blanks lead to a sign. -/
def leadsToSign : List Token → Bool
  | .mark c :: ts => isSign c || (isBlank c && leadsToSign ts)
  | _ => false

/-- Whether a row of tokens does not begin with two words. -/
def isLone : List Token → Bool
  | [] => true
  | .mark c :: _ => lineMarks.elem c
  | .name _ :: ts | .keyword _ :: ts => leadsToSign ts

theorem exists_of_leadsToSign : ∀ {ts : List Token}, leadsToSign ts = true →
    ∃ gap c rest, spell ts = gap ++ c :: rest ∧ (∀ x ∈ gap, isBlank x = true) ∧ isSign c = true
  | .mark c :: ts, h => by
    rw [leadsToSign, Bool.or_eq_true, Bool.and_eq_true] at h
    rcases h with hc | ⟨hc, hts⟩
    · exact ⟨[], c, spell ts, rfl, fun _ hx => absurd hx List.not_mem_nil, hc⟩
    · obtain ⟨gap, d, rest, hspell, hgap, hd⟩ := exists_of_leadsToSign hts
      exact ⟨c :: gap, d, rest, by rw [spell_cons, hspell]; rfl, List.forall_mem_cons.mpr ⟨hc, hgap⟩, hd⟩

/-- No field begins among words that stand alone. -/
theorem skips_lone {ts : List Token} (hspaced : isSpaced ts = true) (h : everywhere isLone ts = true)
    (b : Option Char) (tail : Text) : fieldPattern.Skips b (spell ts) tail := by
  refine skips_spell (fun _ => True) (fun tok ts b _ hspaced hlone => ⟨?_, trivial⟩) trivial hspaced h
  by_cases hw : tok.isWord = true
  · have hts : leadsToSign ts = true := by
      cases tok with
      | mark c => exact absurd hw Bool.false_ne_true
      | _ => exact hlone
    obtain ⟨gap, c, rest, hspell, hgap, hc⟩ := exists_of_leadsToSign hts
    refine skips_word (fun w b _ hw => ?_) (Token.plain_of_isWord hspaced hw)
    have hviews := views_fieldPattern_of_oneWord (fun x hx => isWordChar_of_mem_nameChars (hw x hx)) hgap hc b
      (rest ++ tail)
    rw [hspell]
    rwa [List.append_assoc, ← List.cons_append, ← List.append_assoc gap] at hviews
  · cases tok with
    | mark c => exact ⟨fieldPattern_rejects (by simpa [isLone] using hlone) _ rfl, trivial⟩
    | _ => exact absurd rfl hw

/-- Words that stand alone are followed by a mark. -/
theorem isWordChar_of_getLast?_lone : ∀ {ts : List Token}, isSpaced ts = true → everywhere isLone ts = true →
    ∀ c, (spell ts).getLast? = some c → isWordChar c = false
  | [], _, _, _, hc => absurd hc (by simp)
  | [tok], hspaced, h, c, hc => by
    cases tok with
    | mark d =>
      rw [isSpaced, Bool.and_eq_true, Bool.not_eq_true'] at hspaced
      obtain rfl : d = c := by simpa [Token.text] using hc
      exact hspaced.1
    | _ => exact absurd h Bool.false_ne_true
  | tok :: tok' :: ts, hspaced, h, c, hc => by
    have hspaced' := isSpaced_of_cons hspaced
    rw [everywhere, Bool.and_eq_true] at h
    refine isWordChar_of_getLast?_lone hspaced' h.2 c ?_
    have hne : spell (tok' :: ts) ≠ [] := by simp [Token.text_ne_nil hspaced']
    rwa [spell_cons, List.getLast?_append_of_ne_nil _ hne] at hc

theorem passes_lone {ts : List Token} (hspaced : isSpaced ts = true) (h : everywhere isLone ts = true) :
    fieldPattern.Passes (spell ts) :=
  .of_skips (isWordChar_of_getLast?_lone hspaced h) (skips_lone hspaced h)

/-- A search for fields goes through a field. -/
theorem passes_fieldText {type name : Text} {value? : Option Text} (htype : IsTypeWord type)
    (hname : name ≠ []) (hplain : ∀ c ∈ name, c ∈ nameChars) (hvalue : ∀ value ∈ value?, IsValue value)
    (access : Access) : fieldPattern.Passes (fieldText access type name value?) := by
  have hend : ∃ front, fieldText access type name value? = front ++ [';'] :=
    ⟨access.lead ++ (type ++ ' ' :: (name ++ valueText value?)), by simp [fieldText]⟩
  obtain ⟨front, hfront⟩ := hend
  apply Passes.of_first
  · rw [hfront]
    simp
  · intro c hc
    rw [hfront, List.getLast?_concat] at hc
    obtain rfl := Option.some.inj hc
    decide
  · intro b tail hb
    exact ⟨_, fieldPattern_first htype hname hplain hvalue access hb tail, rfl⟩

theorem Spacing.passes (w : Spacing) : fieldPattern.Passes w.text := by
  have hall : (" \t\n".toList.all fun c => lineMarks.elem c && !isWordChar c) = true := by decide
  have hw : ∀ c ∈ w.text, c ∈ lineMarks ∧ isWordChar c = false := by
    intro c hc
    simpa using List.all_eq_true.mp hall c (w.isSpacing c hc)
  exact .of_skips (fun c hc => (hw c (List.mem_of_getLast? hc)).2) fun b tail =>
    skips_of_forall_rejects (fun c hc => fieldPattern_rejects (hw c hc).1) b tail

end GoDraft
