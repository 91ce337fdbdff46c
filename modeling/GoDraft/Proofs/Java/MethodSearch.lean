import GoDraft.Proofs.Java.MethodShape
import GoDraft.Proofs.Java.SourceScan
import GoDraft.Proofs.Text.Boundary

/-!
# GoDraft — the methods of a class

The search for methods goes through the text of a class member by member. It passes over fields, reads the
header of a method, finds the brace that ends its block, and goes on behind that brace, so that nothing in a
body is ever looked at.

* `methodFindingsFrom_skips`, `methodFindingsFrom_resume` — parts that are passed over;
* `MethodsFrom.method` — a method is found as it stands;
* `ClassSource.methods` — the methods of a class are found, in order.
-/

namespace GoDraft

open Pattern

/-! ## Parts that are passed over -/

section PassingOver

variable {source className tail : Text} {resume : Nat}

/-- The search goes over a part without a header. -/
theorem methodFindingsFrom_skips : ∀ {t : Text} {b : Option Char} {offset : Nat}, methodHeader.Skips b t tail →
    resume ≤ offset → methodFindingsFrom source className resume b offset (t ++ tail) =
      methodFindingsFrom source className resume (lastOf b t) (offset + t.size) tail
  | [], b, offset, _, _ => by rw [List.nil_append, lastOf_nil, Text.size_nil, Nat.add_zero]
  | c :: t, b, offset, ⟨hc, ht⟩, hresume => by
    rw [List.cons_append, methodFindingsFrom, if_neg (Nat.not_lt.mpr hresume), matchAt?_eq_none_iff.mpr hc]
    dsimp only
    rw [methodFindingsFrom_skips ht (Nat.le_add_right_of_le hresume), lastOf_cons, Text.size_cons, Nat.add_assoc]

/-- The search goes over everything before the offset where it resumes. -/
theorem methodFindingsFrom_resume : ∀ (t : Text) (b : Option Char) (offset : Nat), offset + t.size = resume →
    methodFindingsFrom source className resume b offset (t ++ tail) =
      methodFindingsFrom source className resume (lastOf b t) resume tail
  | [], b, offset, hresume => by
    rw [Text.size_nil, Nat.add_zero] at hresume
    rw [List.nil_append, lastOf_nil, hresume]
  | c :: t, b, offset, hresume => by
    rw [Text.size_cons] at hresume
    have hpos := c.utf8Size_pos
    rw [List.cons_append, methodFindingsFrom, if_pos (by omega)]
    dsimp only
    rw [methodFindingsFrom_resume t (some c) _ (by omega), lastOf_cons]

/-- A member with a header and a block is found, and the search resumes behind the block. -/
theorem methodFindingsFrom_block {b : Option Char} {offset close : Nat} {c : Char} {rest body : Text} {x : Match}
    (hresume : resume ≤ offset) (hx : methodHeader.matchAt? ⟨b, offset, c :: rest⟩ = some x)
    (hmember : isMemberAt source x.start = true) (hend : blockEnd source x.brace true = .ok (some close))
    (hbody : source.slice (x.brace + 1) close = .ok body) {xs : List MethodFinding}
    (hrest : methodFindingsFrom source className (close + 1) (some c) (offset + c.utf8Size) rest = .ok xs) :
    methodFindingsFrom source className resume b offset (c :: rest) = .ok (methodFinding className x body :: xs) := by
  rw [methodFindingsFrom, if_neg (Nat.not_lt.mpr hresume), hx]
  dsimp only
  rw [if_pos hmember, hend]
  change (do let body ← source.slice (x.brace + 1) close; _) = _
  rw [hbody, hrest]
  rfl

end PassingOver

/-! ## Members -/

/-- What a match that has read the header of a method is taken for. -/
theorem MethodSource.methodFinding_of_is (m : MethodSource) {className s : Text} {x : Match} {offset : Nat}
    (his : x.Is offset s m.notes) (hname : m.name.text ≠ className) :
    methodFinding className x m.block = .method m.method := by
  have haccess : Access.ofWord (m.notes.lookup 1) = m.access := by
    rw [notes]
    cases m.access <;> rfl
  have hreturn : Access.isKeyword m.returnType.text = false := by
    have hall : ∀ w : Text, Access.isKeyword w = true → w ∈ memberWords := by
      intro w hw
      simp only [Access.isKeyword, Access.word?, Bool.or_eq_true, beq_iff_eq, Option.some.injEq] at hw
      rcases hw with (rfl | rfl) | rfl <;> decide
    rw [Bool.eq_false_iff]
    exact fun hw => m.returnType.notMember (hall _ hw)
  have hgroup3 : x.group 3 = m.name.text := his.group 2
  have hgroup2 : x.group 2 = m.returnType.text := his.group 1
  have hgroup4 : x.group 4 = m.paramsText := his.group 3
  rw [methodFinding, hgroup3, if_neg m.notMain, hgroup2, hreturn, Bool.false_or, beq_false_of_ne hname,
    if_neg Bool.false_ne_true, his.group? 0, haccess, hgroup4, m.parseParams_paramsText]
  rfl

namespace MethodSource

variable (m : MethodSource) {u : Text}

theorem text_ne_nil : m.text ≠ [] := by simp [text_eq]

theorem size_text : m.text.size = m.header.size + (m.block.size + 1) := by
  rw [text_eq, Text.size_append, Text.size_append]
  rfl

theorem size_header_pos : 0 < m.header.size := by
  obtain ⟨front, hheader, -⟩ := m.exists_quiet_header
  rw [hheader, Text.size_append]
  exact Nat.lt_add_left _ Nat.one_pos

/-- The header is matched where a method stands. -/
theorem exists_matchAt? (hu : MemberPlace u) (t : Text) : ∃ x,
    methodHeader.matchAt? ⟨lastOf none u, u.size, m.text ++ t⟩ = some x ∧ x.Is u.size m.header m.notes := by
  rw [m.text_append]
  exact matchAt?_of_views u.size (m.methodHeader_first hu.edge _) rfl

theorem isMemberAt (hu : MemberPlace u) (t : Text) : isMemberAt (u ++ (m.text ++ t)) u.size = true := by
  have hlead : m.text ++ t = m.access.lead ++ (m.returnType.text ++ (' ' :: (m.name.text ++ '(' ::
      (m.paramsText ++ ") \x7b")) ++ (m.block ++ '}' :: t))) := by simp [text_append, header]
  rw [hlead]
  exact hu.isMemberAt m.access m.returnType.isTypeWord

/-- The block of a method ends at its own brace. -/
theorem blockEnd_eq (u t : Text) {brace : Nat} (hbrace : brace + 1 = (u ++ m.header).size) :
    blockEnd (u ++ (m.text ++ t)) brace true = .ok (some (brace + 1 + m.block.size)) := by
  obtain ⟨front, hheader, -⟩ := m.exists_quiet_header
  have hsource : u ++ (m.text ++ t) = (u ++ front) ++ '{' :: (m.block ++ '}' :: t) := by
    rw [text_append, hheader]
    simp
  have hfront : brace = (u ++ front).size := by
    have hsize : (u ++ m.header).size = (u ++ front).size + 1 := by
      rw [hheader, ← List.append_assoc, Text.size_append]
      rfl
    omega
  rw [blockEnd, hsource, hfront, (m.walksInside_block 1).matchingBrace?_eq, Nat.add_assoc]

theorem slice_block (u t : Text) : Text.slice (u ++ (m.text ++ t)) (u ++ m.header).size
    ((u ++ m.header).size + m.block.size) = .ok m.block := by
  rw [text_append, ← List.append_assoc]
  exact Text.slice_append _ _ _

end MethodSource

/-- The methods that a search from behind `u` on finds. -/
def MethodsFrom (className u t : Text) (ms : List Method) : Prop :=
  ∀ resume ≤ u.size, ∃ xs, methodFindingsFrom (u ++ t) className resume (lastOf none u) u.size t = .ok xs ∧
    xs.filterMap MethodFinding.method? = ms

namespace MethodsFrom

variable {className u s t : Text} {ms : List Method}

theorem skip (hskips : methodHeader.Skips (lastOf none u) s t) (ht : MethodsFrom className (u ++ s) t ms) :
    MethodsFrom className u (s ++ t) ms := by
  intro resume hresume
  have hlater : resume ≤ (u ++ s).size := by
    rw [Text.size_append]
    omega
  obtain ⟨xs, hxs, hmethods⟩ := ht resume hlater
  rw [List.append_assoc, lastOf_append, Text.size_append] at hxs
  exact ⟨xs, by rw [methodFindingsFrom_skips hskips hresume, hxs], hmethods⟩

/-- Text without parentheses that ends in a sign. -/
theorem signed (hs : '(' ∉ s) (hlast : ∀ c, s.getLast? = some c → isSign c = true)
    (ht : MethodsFrom className (u ++ s) t ms) : MethodsFrom className u (s ++ t) ms :=
  skip (methodHeader_leadsTo.skips t (fun _ hc h => hs (h ▸ hc)) hlast) ht

theorem spacing (w : Spacing) (ht : MethodsFrom className (u ++ w.text) t ms) :
    MethodsFrom className u (w.text ++ t) ms := by
  have hall : ∀ c ∈ " \t\n".toList, c ∈ " \t\n\x7d".toList := by decide
  exact skip (skips_of_forall_rejects (fun c hc => methodHeader_rejects (hall c (w.isSpacing c hc))) _ t) ht

/-- A field has no methods. -/
theorem field (f : FieldSource) (ht : MethodsFrom className (u ++ f.text) t ms) :
    MethodsFrom className u (f.text ++ t) ms := by
  have hlead : '(' ∉ f.access.lead := fun h => absurd (f.access.mem_lead _ h) (by decide)
  have hword : ∀ w : Word, '(' ∉ w.text := fun w h => absurd (w.plain _ h) (by decide)
  have hvalue : '(' ∉ valueText (f.initial?.map Initial.text) := by
    rcases f.initial? with _ | w | ⟨content, plain⟩
    · exact List.not_mem_nil
    · have hw := hword w
      simpa [valueText, Initial.text] using hw
    · have hcontent : '(' ∉ content := fun h => plain _ h (by decide)
      simpa [valueText, Initial.text] using hcontent
  have htext : f.text = (f.access.lead ++ (f.type.text ++ ' ' :: (f.name.text ++
      valueText (f.initial?.map Initial.text)))) ++ [';'] := by simp [FieldSource.text, fieldText]
  apply signed _ _ ht
  · rw [htext]
    simp [hlead, hword, hvalue]
  · intro c hc
    rw [htext, List.getLast?_concat] at hc
    obtain rfl := Option.some.inj hc
    decide

/-- A method is found as it stands. -/
theorem method (m : MethodSource) (hu : MemberPlace u) (hname : m.name.text ≠ className)
    (ht : MethodsFrom className (u ++ m.text) t ms) : MethodsFrom className u (m.text ++ t) (m.method :: ms) := by
  intro resume hresume
  obtain ⟨x, hx, his⟩ := m.exists_matchAt? hu t
  have hbrace : x.brace + 1 = (u ++ m.header).size := by
    have hpos := m.size_header_pos
    rw [Match.brace, his.stop, Text.size_append]
    omega
  have hmember : isMemberAt (u ++ (m.text ++ t)) x.start = true := by
    rw [his.start]
    exact m.isMemberAt hu t
  have hbody : Text.slice (u ++ (m.text ++ t)) (x.brace + 1) (x.brace + 1 + m.block.size) = .ok m.block := by
    rw [hbrace]
    exact m.slice_block u t
  have hclose : x.brace + 1 + m.block.size + 1 = (u ++ m.text).size := by
    rw [hbrace, Text.size_append, Text.size_append, m.size_text]
    omega
  obtain ⟨xs, hxs, rfl⟩ := ht _ (Nat.le_refl _)
  obtain ⟨c, v, hcons⟩ := List.exists_cons_of_ne_nil m.text_ne_nil
  -- up to the end of the method the search skips, as it goes on there
  have hrest : methodFindingsFrom (u ++ (m.text ++ t)) className (x.brace + 1 + m.block.size + 1) (some c)
      (u.size + c.utf8Size) (v ++ t) = .ok xs := by
    have hoffset : u.size + c.utf8Size + Text.size v = (u ++ m.text).size := by
      rw [Text.size_append, hcons, Text.size_cons, Nat.add_assoc]
    rw [hclose, methodFindingsFrom_resume v (some c) _ hoffset, ← hxs, lastOf_append, hcons, lastOf_cons,
      List.append_assoc]
  refine ⟨.method m.method :: xs, ?_, rfl⟩
  rw [← m.methodFinding_of_is his hname]
  rw [hcons, List.cons_append] at hx hmember hbody hrest ⊢
  have hend := m.blockEnd_eq u t hbrace
  rw [hcons, List.cons_append] at hend
  exact methodFindingsFrom_block hresume hx hmember hend hbody hrest

/-- The methods among some members are found, in order. -/
theorem members : ∀ {xs : List (Member × Spacing)} {u : Text}, MemberPlace u →
    (∀ x ∈ xs, ∀ m ∈ x.1.method?, m.name.text ≠ className) →
    MethodsFrom className u (membersText xs ++ ['}']) (xs.filterMap fun x => x.1.method?.map MethodSource.method)
  | [], u, _, _ => by
    have hskips : methodHeader.Skips (lastOf none u) ['}'] [] := ⟨methodHeader_rejects (by decide) _ rfl, trivial⟩
    have hend : MethodsFrom className u (['}'] ++ []) [] := skip hskips fun resume _ => ⟨[], rfl, rfl⟩
    exact hend
  | (x, w) :: xs, u, hu, hnames => by
    rw [List.forall_mem_cons] at hnames
    have hrest := spacing w (members ((hu.member x).spacing w) hnames.2)
    rw [membersText_cons_append]
    cases x with
    | field f => exact field f hrest
    | method m => exact method m hu (hnames.1 m rfl) hrest

end MethodsFrom

/-- The methods of a class are found, in order. -/
theorem ClassSource.methods (c : ClassSource) :
    ∃ xs, methodFindings c.text c.name.text = .ok xs ∧ xs.filterMap MethodFinding.method? = c.decl.methods := by
  have hmembers := MethodsFrom.members c.memberPlace c.notConstructor
  have hparen : '(' ∉ c.header := by
    rw [header_eq, List.mem_append, List.mem_append]
    rintro (h | h | h)
    · exact absurd h (by decide)
    · exact absurd (c.name.plain _ h) (by decide)
    · exact absurd h (by decide)
  have hlast : ∀ d, c.header.getLast? = some d → isSign d = true := by
    intro d hd
    obtain rfl := Option.some.inj (c.getLast?_header.symm.trans hd)
    decide
  have hall := MethodsFrom.signed (u := []) hparen hlast (MethodsFrom.spacing c.inner hmembers)
  rw [methodFindings, text_eq]
  exact hall 0 (Nat.le_refl 0)

end GoDraft
