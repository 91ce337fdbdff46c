import GoDraft.Proofs.Java.FieldShape
import GoDraft.Proofs.Java.SourceScan

/-!
# GoDraft — the fields of a class

The search for fields goes through the text of a class member by member. A field is found as it stands. In a
method, declarations and what is given back have the shape of a field as well, but they end in their own
line and begin two blocks deep, so none is taken for a field of the class and none reaches over the next
member.

* `Line.passes`, `Statements.passes` — the search goes through statements;
* `YieldsFrom.field`, `YieldsFrom.method` — what one member yields;
* `ClassSource.yields` — the fields of a class are found, in order.
-/

namespace GoDraft

open Pattern

/-! ## Statements -/

namespace Line

theorem everywhere_conditionTokens (c : Condition) {ts : List Token} (hts : leadsToSign ts = true)
    (h : everywhere isLone ts = true) : everywhere isLone (conditionTokens c ts) = true := by
  obtain ⟨left, comparison, right⟩ := c
  have hsign : ∀ d ∈ "<>=!".toList, isSign d = true ∧ d ∈ lineMarks := by decide
  have hspace : isSign ' ' = false ∧ isBlank ' ' = true ∧ ' ' ∈ lineMarks := by decide
  cases comparison <;>
    simp [conditionTokens, marks, Comparison.text, everywhere, isLone, leadsToSign, hts, h, hsign, hspace]

/-- A search for fields goes through a line whose words stand alone. -/
theorem passes_of_everywhere {l : Line} (h : everywhere isLone l.javaTokens = true) :
    fieldPattern.Passes l.java := by
  rw [← spell_javaTokens]
  exact passes_lone l.isSpaced_javaTokens h

/-- A search for fields goes through a statement of the shape of a field. -/
theorem passes_declared {type : Name} {value : Text} (htype : type.text ∉ memberWords) (name : Name)
    (hvalue : IsValue value) :
    fieldPattern.Passes (type.text ++ ' ' :: (name.text ++ (" = " ++ value) ++ [';'])) := by
  have hpasses := passes_fieldText ⟨type.nonempty, type.plain, htype⟩ name.nonempty name.plain
    (fun _ hv => Option.some.inj hv ▸ hvalue) .unmarked
  rwa [fieldText, ← List.append_assoc name.text] at hpasses

/-- A search for fields goes through a statement without a block. -/
theorem passes_simple (s : Simple) (h : ∀ n ∈ (simple s).names, n.text ∉ memberWords) :
    fieldPattern.Passes s.java := by
  cases s with
  | declare type name value =>
    have htype : type.text ∉ memberWords := h type List.mem_cons_self
    have hpasses := passes_declared htype name value.isValue
    unfold Simple.java
    simpa using hpasses
  | assign name value => exact passes_of_everywhere (l := simple (.assign name value)) rfl
  | increment name => exact passes_of_everywhere (l := simple (.increment name)) rfl
  | print value => exact passes_of_everywhere (l := simple (.print value)) rfl
  | giveBack value =>
    -- `return` and the value look like a field of a type that is no type
    have hpasses : fieldPattern.Passes (fieldText .unmarked "return" value.text none) :=
      passes_fieldText ⟨by decide, by decide, by decide⟩ value.nonempty value.plain
        (fun _ hv => absurd hv (by simp)) .unmarked
    exact hpasses
  | construct type name made arguments =>
    have htype : type.text ∉ memberWords := h type List.mem_cons_self
    have hvalue : IsValue ("new ".toList ++ (made.text ++ '(' :: (argumentText arguments ++ [')']))) := by
      apply isValue_of_forall rfl
      have hall : (('(' :: ')' :: argumentChars).all fun c => !";\"".toList.elem c) = true := by decide
      have hnew : ∀ c ∈ "new ".toList, c ∈ argumentChars := by decide
      intro c hc
      have hmem : c ∈ '(' :: ')' :: argumentChars := by
        have hplain := fun h => List.mem_append_left ", ".toList (made.plain c h)
        have harguments := mem_argumentChars arguments c
        have hhead := hnew c
        simp only [List.mem_append, List.mem_cons, List.not_mem_nil, or_false] at hc ⊢
        tauto
      simpa using List.all_eq_true.mp hall c hmem
    have hpasses := passes_declared htype name hvalue
    unfold Simple.java
    simpa using hpasses

/-- A search for fields goes through the header of a counting loop, and finds the declaration in it. -/
theorem passes_count (type name start : Name) (c : Condition) (next : Name) (htype : type.text ∉ memberWords) :
    fieldPattern.Passes (Header.count type name start c next).java := by
  have hopen : fieldPattern.Passes (spell [.keyword "for", .mark ' ', .mark '(']) := passes_lone rfl rfl
  have hdeclared := passes_declared htype name start.isValue
  have hrest : fieldPattern.Passes (spell (.mark ' ' :: conditionTokens c
      [.mark ';', .mark ' ', .name next, .mark '+', .mark '+', .mark ')', .mark ' ', .mark '{'])) := by
    apply passes_lone
    · rw [isSpaced, isSpaced_conditionTokens]
      rfl
    · exact everywhere_conditionTokens c rfl rfl
  have hall := hopen.append (hdeclared.append hrest)
  unfold Header.java
  simpa [spell_conditionTokens, Token.text] using hall

theorem everywhere_gap (g : Gap) (ts : List Token) :
    everywhere isLone (marks g.text ++ ts) = everywhere isLone ts := by
  obtain ⟨s, hs⟩ := g
  induction s with
  | nil => rfl
  | cons c s ih =>
    rw [List.forall_mem_cons] at hs
    have hc : lineMarks.elem c = true := by
      rcases eq_of_isGap hs.1 with rfl | rfl <;> decide
    have hcons : everywhere isLone (marks (c :: s) ++ ts) =
        (lineMarks.elem c && everywhere isLone (marks s ++ ts)) := rfl
    rw [hcons, hc, Bool.true_and]
    exact ih hs.2

/-- A search for fields goes through a line. -/
theorem passes (l : Line) (h : ∀ n ∈ l.names, n.text ∉ memberWords) : fieldPattern.Passes l.java := by
  match l with
  | simple s => exact passes_simple s h
  | opening (.branch c) =>
    exact passes_of_everywhere (l := opening (.branch c)) (everywhere_conditionTokens c rfl rfl)
  | opening (.loop c) =>
    exact passes_of_everywhere (l := opening (.loop c)) (everywhere_conditionTokens c rfl rfl)
  | opening (.count type name start c next) =>
    exact passes_count type name start c next (h type List.mem_cons_self)
  | openingDo => exact passes_of_everywhere (l := openingDo) rfl
  | closing => exact passes_of_everywhere (l := closing) rfl
  | closingElse => exact passes_of_everywhere (l := closingElse) rfl
  | closingWhile c => exact passes_of_everywhere (l := closingWhile c) (everywhere_conditionTokens c rfl rfl)
  | joint g c =>
    have hwhile : everywhere isLone (.keyword "while" :: .mark ' ' :: .mark '(' ::
        conditionTokens c [.mark ')', .mark ' ', .mark '{']) = true := everywhere_conditionTokens c rfl rfl
    exact passes_of_everywhere (l := joint g c) ((everywhere_gap g _).trans hwhile)

end Line

/-- A search for fields goes through a layout. -/
theorem Layout.passes : ∀ {x : Layout}, (∀ y ∈ x, ∀ n ∈ y.1.names, n.text ∉ memberWords) →
    fieldPattern.Passes (Layout.text x)
  | [], _ => .of_skips (fun _ hc => absurd hc (by simp [Layout.text])) fun _ _ => trivial
  | (l, w) :: x, h => by
    rw [List.forall_mem_cons] at h
    exact (l.passes h.1).append (w.passes.append (Layout.passes h.2))

/-- A search for fields goes through statements. -/
theorem Statements.passes (p : Statements Spacing) (h : ∀ n ∈ p.names, n.text ∉ memberWords) :
    fieldPattern.Passes p.text := by
  rw [← p.text_layout]
  apply Layout.passes
  intro y hy n hn
  have hline : y.1 ∈ p.lines := by
    rw [← p.map_fst_layout]
    exact List.mem_map_of_mem hy
  exact h n (List.mem_flatMap.mpr ⟨y.1, hline, hn⟩)

/-! ## Members -/

theorem not_hasPart_lookback {u t : Text} (h : ¬ "static".toList <:+: u ++ t) :
    (lookback u).hasPart "static" = false := by
  rw [Bool.eq_false_iff]
  intro hpart
  obtain ⟨v, hu, -⟩ := exists_lookback u
  apply h
  rw [hu]
  exact (Text.hasPart_iff.mp hpart).trans (List.infix_append v _ t)

/-- A value has no blanks at its ends. -/
theorem Initial.trim_text (i : Initial) : i.text.trim = i.text := by
  have hends : i.text.head?.any GoDraft.isBlank = false ∧ i.text.getLast?.any GoDraft.isBlank = false := by
    cases i with
    | word w =>
      obtain ⟨c, hc, hblank⟩ := w.exists_head
      obtain ⟨d, hd, hblank'⟩ := w.exists_last
      exact ⟨by rw [text, hc]; exact hblank, by rw [text, hd]; exact hblank'⟩
    | literal content plain =>
      refine ⟨rfl, ?_⟩
      rw [text, ← List.cons_append, List.getLast?_concat]
      rfl
  have htrim : Text.trim ([] ++ (i.text ++ [])) = i.text := trim_of_ends (by simp) (by simp) hends.1 hends.2
  rwa [List.nil_append, List.append_nil] at htrim

/-- The fields that a search from behind `u` on yields. -/
def YieldsFrom (u t : Text) (fs : List Field) : Prop :=
  Yields (u ++ t) (fieldPattern.findAllFrom (lastOf none u) u.size 0 t) fs

namespace YieldsFrom

variable {u s t : Text} {ms : List Match} {fs fs' : List Field}

/-- A part and what follows it. -/
theorem append (hfinds : fieldPattern.Finds (lastOf none u) u.size s t ms) (hms : Yields (u ++ (s ++ t)) ms fs)
    (ht : YieldsFrom (u ++ s) t fs') : YieldsFrom u (s ++ t) (fs ++ fs') := by
  rw [YieldsFrom, List.append_assoc, lastOf_append, Text.size_append] at ht
  rw [YieldsFrom, hfinds]
  exact hms.append ht

theorem skip (hskips : fieldPattern.Skips (lastOf none u) s t) (ht : YieldsFrom (u ++ s) t fs) :
    YieldsFrom u (s ++ t) fs :=
  append (.of_skips hskips u.size) (.nil _) ht

theorem header (hs : ∀ c ∈ s, c ∈ headerChars) (hlast : s.getLast? = some '{')
    (ht : YieldsFrom (u ++ s) t fs) : YieldsFrom u (s ++ t) fs := by
  have hall : ∀ c ∈ headerChars, ¬ (c = '=' ∨ c = ';') := by decide
  apply skip _ ht
  apply fieldPattern_leadsTo.skips t fun c hc => hall c (hs c hc)
  intro c hc
  obtain rfl := Option.some.inj (hlast.symm.trans hc)
  decide

theorem spacing (w : Spacing) (ht : YieldsFrom (u ++ w.text) t fs) : YieldsFrom u (w.text ++ t) fs := by
  have hall : ∀ c ∈ " \t\n".toList, c ∈ lineMarks := by decide
  exact skip (skips_of_forall_rejects (fun c hc => fieldPattern_rejects (hall c (w.isSpacing c hc))) _ t) ht

/-- A field is found as it stands. -/
theorem field (f : FieldSource) (hu : MemberPlace u) (hstatic : ¬ "static".toList <:+: u ++ (f.text ++ t))
    (ht : YieldsFrom (u ++ f.text) t fs) : YieldsFrom u (f.text ++ t) (f.field :: fs) := by
  have hvalue : ∀ value ∈ f.initial?.map Initial.text, IsValue value := by
    intro value hmem
    obtain ⟨i, -, rfl⟩ := Option.map_eq_some_iff.mp hmem
    exact i.isValue
  have hne : f.text ≠ [] := by simp [FieldSource.text, fieldText]
  obtain ⟨m, his, hfinds⟩ := Finds.of_first hne (fieldPattern_first f.type.isTypeWord f.name.nonempty f.name.plain
    hvalue f.access hu.edge t) rfl u.size
  obtain ⟨x, hx, hfield⟩ := exists_fieldFinding (m := m) rfl his.start
  have hmember : isMemberAt (u ++ (f.text ++ t)) u.size = true := by
    have htext : f.text ++ t = f.access.lead ++ (f.type.text ++ ' ' :: (f.name.text ++
        (valueText (f.initial?.map Initial.text) ++ [';'])) ++ t) := by simp [FieldSource.text, fieldText]
    rw [htext, List.append_assoc]
    exact hu.isMemberAt f.access f.type.isTypeWord
  have hdefault : (f.initial?.map Initial.text).map Text.trim = f.initial?.map Initial.text := by
    cases f.initial? with
    | none => rfl
    | some i => exact congrArg some i.trim_text
  rw [not_hasPart_lookback hstatic, hmember, fieldOf_of_is his, hdefault] at hfield
  have hone := Yields.cons hx (.nil _)
  rw [hfield] at hone
  exact append hfinds hone ht

/-- The matches in the block of a method begin too deep to be fields. -/
theorem block (m : MethodSource) (hu : MemberPlace u) (ht : YieldsFrom (u ++ m.header ++ m.block) ('}' :: t) fs) :
    YieldsFrom (u ++ m.header) (m.block ++ '}' :: t) fs := by
  obtain ⟨xs, hxs⟩ := hu.walks
  obtain ⟨ys, hys⟩ := m.walks_header 1
  have hedge : (lastOf none (u ++ m.header)).any isWordChar = false := by
    rw [lastOf, List.getLast?_append, m.getLast?_header]
    rfl
  have hblock : fieldPattern.Passes m.block := m.inner.passes.append (m.body.passes m.plainBody)
  obtain ⟨-, hpasses⟩ := hblock _ hedge
  obtain ⟨ms, hfinds, hstart⟩ := hpasses (u ++ m.header).size ('}' :: t)
  have hnone : Yields ((u ++ m.header) ++ (m.block ++ '}' :: t)) ms [] := by
    apply Yields.none_of_forall
    intro m' hm'
    obtain ⟨s, r, hsplit, hr, hm'⟩ := hstart m' hm'
    have hsource : (u ++ m.header) ++ (m.block ++ '}' :: t) = (u ++ m.header ++ s) ++ (r ++ '}' :: t) := by
      rw [hsplit]
      simp
    obtain ⟨x, hx, hfield⟩ := exists_fieldFinding hsource (hm'.trans (Text.size_append _ _).symm)
    have hinside := m.walksInside_block 2
    rw [hsplit] at hinside
    have hout := hinside.not_isMemberAt (v := '}' :: t) (hxs.append hys) (by decide) hr
    rw [hsplit, hout, Bool.and_false] at hfield
    exact ⟨x, hx, hfield⟩
  exact append hfinds hnone ht

/-- A method has no fields. -/
theorem method (m : MethodSource) (hu : MemberPlace u) (ht : YieldsFrom (u ++ m.text) t fs) :
    YieldsFrom u (m.text ++ t) fs := by
  have hclose : YieldsFrom (u ++ m.header ++ m.block) (['}'] ++ t) fs := by
    have hskips : fieldPattern.Skips (lastOf none (u ++ m.header ++ m.block)) ['}'] t :=
      ⟨fieldPattern_rejects (by decide) _ rfl, trivial⟩
    apply skip hskips
    rwa [MethodSource.text, ← List.append_assoc, ← List.append_assoc] at ht
  rw [m.text_append]
  exact header m.mem_header m.getLast?_header (block m hu hclose)

/-- The fields among some members are found, in order. -/
theorem members : ∀ {xs : List (Member × Spacing)} {u : Text}, MemberPlace u →
    ¬ "static".toList <:+: u ++ (membersText xs ++ ['}']) →
    YieldsFrom u (membersText xs ++ ['}']) (xs.filterMap fun x => x.1.field?.map FieldSource.field)
  | [], u, _, _ => by
    rw [YieldsFrom, membersText, List.nil_append, findAllFrom_none]
    · exact .nil _
    · exact matchAt?_eq_none_iff.mpr (fieldPattern_rejects (by decide) _ rfl)
  | (x, w) :: xs, u, hu, hstatic => by
    rw [membersText_cons_append] at hstatic ⊢
    have hrest := members ((hu.member x).spacing w) (by simpa using hstatic)
    cases x with
    | field f => exact field f hu hstatic (spacing w hrest)
    | method m => exact method m hu (spacing w hrest)

end YieldsFrom

/-- The fields of a class are found, in order. -/
theorem ClassSource.yields (c : ClassSource) (hstatic : ¬ "static".toList <:+: c.text) :
    Yields c.text (fieldPattern.findAll c.text) c.decl.fields := by
  rw [text_eq] at hstatic ⊢
  have hmembers := YieldsFrom.members c.memberPlace (by rwa [List.append_assoc])
  have hall := YieldsFrom.header (u := []) c.mem_header c.getLast?_header (.spacing c.inner hmembers)
  rwa [YieldsFrom, List.nil_append, lastOf_nil, Text.size_nil] at hall

end GoDraft
