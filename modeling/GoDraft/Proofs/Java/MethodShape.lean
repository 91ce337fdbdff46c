import GoDraft.Proofs.Java.MemberHead

/-!
# GoDraft — text of the shape of a method

The header of a method has words and blanks up to its opening parenthesis, so none begins where another
sign comes first. Where a header stands, the pattern reads it up to its brace, and the parameters are read
back from what stands between the parentheses.

* `methodHeader_leadsTo` — where no header can begin;
* `methodHeader_first` — where a header stands;
* `parseParams_paramsText` — the parameters are read back.
-/

namespace GoDraft

open Pattern

/-! ## The shape of a header -/

/-- The words of a header, up to its opening parenthesis. -/
def methodWords : Pattern :=
  wordEdge ++ optional (group 1 ("public" ||| "private" ||| "protected") ++ blanks1)
    ++ optional ("static" ++ blanks1) ++ optional ("final" ++ blanks1)
    ++ group 2 word ++ blanks1 ++ group 3 word ++ blanks

theorem keeps_methodWords : methodWords.Keeps isUnsigned := by
  have haccess : (group 1 (text "public" ||| text "private" ||| text "protected")).Keeps isUnsigned :=
    (((Keeps.text (by decide)).alt (.text (by decide))).alt (.text (by decide))).group 1
  have hstatic : (text "static").Keeps isUnsigned := .text (by decide)
  have hfinal : (text "final").Keeps isUnsigned := .text (by decide)
  exact ((((((Keeps.wordEdge.seq (haccess.seq keeps_blanks1).optional).seq
    (hstatic.seq keeps_blanks1).optional).seq (hfinal.seq keeps_blanks1).optional).seq (keeps_word.group 2)).seq
    keeps_blanks1).seq (keeps_word.group 3)).seq keeps_blanks

theorem methodHeader_leadsTo : methodHeader.LeadsTo (· = '(') := by
  rintro s g ⟨_, _, brace, _, ⟨_, _, clause, _, ⟨_, _, gap, _, ⟨_, _, close, _, ⟨_, _, params, _,
    ⟨words, _, paren, _, hwords, hparen, rfl, -⟩, -, rfl, -⟩, -, rfl, -⟩, -, rfl, -⟩, -, rfl, -⟩, -, rfl, -⟩
  obtain ⟨rfl, -⟩ := fits_text hparen
  refine ⟨words, '(', params ++ close ++ gap ++ clause ++ brace, by simp, ?_, by decide, rfl⟩
  exact fun c hc => isUnsigned_iff.mp (keeps_methodWords _ _ hwords c hc)

/-- A header begins with a word. -/
theorem methodHeader_rejects {c : Char} (h : c ∈ " \t\n\x7d".toList) : methodHeader.Rejects c := by
  have hall : methodHeader.rejectsAll " \t\n\x7d".toList = true := by decide
  exact rejects_of_rejectsAll hall h

/-! ## Where a header stands -/

theorem readsAccess_method : ReadsAccess ("public" ||| "private" ||| "protected") :=
  readsAccess_words (by decide) (fun a w hw => by cases a <;> simp_all [Access.word?]) (by decide)

namespace MethodSource

variable (m : MethodSource)

/-- What the groups hold where a header stands. -/
def notes : Notes :=
  (4, m.paramsText) :: (3, m.name.text) :: (2, m.returnType.text)
    :: (m.access.word?.map fun w => (1, w)).toList

/-- Where a header stands, the pattern reads it up to its brace. -/
theorem methodHeader_first {b : Option Char} (hb : b.any isWordChar = false) (t : Text) :
    methodHeader.First ⟨b, m.header ++ t, []⟩ ⟨some '{', t, m.notes⟩ := by
  have htype := m.returnType.isTypeWord
  have hparams : ∀ c ∈ m.paramsText, (!")".toList.elem c) = true := by
    have hall : ∀ c ∈ paramChars, (!")".toList.elem c) = true := by decide
    exact fun c hc => hall c (m.mem_paramsText c hc)
  have htext : m.header ++ t = m.access.lead ++ (m.returnType.text ++ ' ' :: (m.name.text ++ '(' ::
      (m.paramsText ++ ')' :: ' ' :: '{' :: t))) := by simp [header]
  obtain ⟨c, v, hv, hc⟩ := m.access.exists_lead_append htype (' ' :: (m.name.text ++ '(' ::
    (m.paramsText ++ ')' :: ' ' :: '{' :: t)))
  have hedge : (View.mk b (m.header ++ t) []).isWordEdge = true := by
    rw [htext, hv, View.isWordEdge, hb, List.head?_cons, Option.any_some, isWordChar_of_mem_nameChars hc]
    rfl
  rw [htext] at hedge ⊢
  iterate 12 apply First.assoc
  refine (First.wordEdge hedge).seq (readsAccess_method.first_lead htype rfl m.access (fun b' => ?_) b)
  refine htype.first_without (by decide) rfl (htype.first_without (by decide) rfl ?_)
  refine (First.group (htype.first_word rfl b' _) 2).seq ((first_space1 (m.name.stopsAt_blank _)).seq ?_)
  refine (First.group (m.name.first_word rfl) 3).seq ((first_noSpace rfl).seq ((First.text ['('] _ _ _).seq ?_))
  refine (First.group (First.run hparams rfl _ _) 4).seq ((First.text [')'] _ _ _).seq ((first_space rfl).seq ?_))
  exact First.left (rejects_of_canStart (by decide) (by decide) _ rfl) (First.text ['{'] t _ _)

end MethodSource

/-! ## Parameters -/

namespace MethodSource

theorem words_paramText (p : Word × Word) : (paramText p).words = [p.1.text, p.2.text] := by
  have hplain : ∀ w : Word, ∀ c ∈ w.text, isBlank c = false := fun w c hc => isBlank_of_mem_nameChars (w.plain c hc)
  rw [paramText, Text.words_append_blank (hplain p.1) p.1.nonempty (by decide), Text.words_word (hplain p.2) p.2.nonempty]

theorem paramOf?_paramText {entry : Text} {p : Word × Word} (h : entry.words = (paramText p).words) :
    paramOf? entry = some ⟨p.1.text, p.2.text⟩ := by
  have hfinal : ∀ w : Word, (w.text != ("final" : Text)) = true := by
    intro w
    rw [bne_iff_ne]
    intro hw
    exact w.notMember (hw ▸ by decide)
  rw [paramOf?, h, words_paramText, List.filter_cons, if_pos (hfinal p.1), List.filter_cons,
    if_pos (hfinal p.2), List.filter_nil]

/-- The parameters of a method are read back. -/
theorem parseParams_paramsText (m : MethodSource) :
    parseParams m.paramsText = m.params.map fun p => ⟨p.1.text, p.2.text⟩ := by
  rw [parseParams, paramsText]
  cases m.params with
  | nil => rfl
  | cons p ps =>
    have hcomma : ∀ u ∈ (p :: ps).map paramText, ',' ∉ u := by
      intro u hu
      obtain ⟨q, -, rfl⟩ := List.mem_map.mp hu
      have hplain : ∀ w : Word, ',' ∉ w.text := fun w hc => absurd (w.plain _ hc) (by decide)
      rw [paramText, List.mem_append, List.mem_cons, not_or, not_or]
      exact ⟨hplain q.1, by decide, hplain q.2⟩
    rw [List.map_cons] at hcomma ⊢
    rw [Text.pieces_join_commaSpace hcomma, List.filterMap_cons_some (paramOf?_paramText rfl), List.map_map,
      List.filterMap_map, List.map_cons, ← List.filterMap_eq_map]
    refine congrArg (_ :: ·) (List.filterMap_congr fun q _ => ?_)
    exact paramOf?_paramText (Text.words_cons_of_isBlank (by decide) _)

end MethodSource

end GoDraft
