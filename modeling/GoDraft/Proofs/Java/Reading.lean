import GoDraft.Java.Outline
import GoDraft.Proofs.Java.ClassName
import GoDraft.Proofs.Java.FieldFindings
import GoDraft.Proofs.Java.MainSearch
import GoDraft.Proofs.Text.Lines
import GoDraft.Proofs.Text.Trim

/-!
# GoDraft — every source text has an outline

Reading an outline cuts a source text at byte offsets, and a cut at a wrong offset is a fault. All cuts are
next to braces or at the start of a match, so no source text breaks the reading off, whatever it holds. What
is read comes from the text: names and types are words, and bodies are parts of the text.

* `exists_blockEnd` — the end of a block is looked for behind any opening brace, and cuts the text;
* `exists_fieldFindings`, `exists_methodFindings`, `exists_findMainBody` — the three searches end;
* `Outline.ReadFrom` — what is known of an outline;
* `exists_readOutline` — every source text has one.
-/

namespace GoDraft

open Pattern

/-! ## Blocks -/

section Block

variable {t : Text} {start close : Nat}

/-- A byte that is seen is the byte of the text. -/
theorem getElem?_bytes_of_scan {i : Nat} {x : Seen UInt8} (h : (scan (t.bytes.drop start))[i]? = some x) :
    t.bytes[start + i]? = some x.letter := by
  have hletter : (t.bytes.drop start)[i]? = some x.letter := by
    rw [← map_letter_scan (t.bytes.drop start), List.getElem?_map, h]
    rfl
  rwa [List.getElem?_drop] at hletter

theorem closeBraceByte_of_mem_closingBraces (h : close ∈ closingBraces t start) :
    start ≤ close ∧ t.bytes[close]? = some closeBraceByte := by
  rw [closingBraces_eq, mem_places_iff] at h
  obtain ⟨hle, x, hx, hcloses⟩ := h
  have hbyte := getElem?_bytes_of_scan hx
  rw [Seen.closes, isClosing_eq, Bool.and_eq_true, beq_iff_eq] at hcloses
  rw [Nat.add_sub_cancel' hle, hcloses.1] at hbyte
  exact ⟨hle, hbyte⟩

theorem closeBraceByte_of_matchingBrace? (h : matchingBrace? t start = some close) :
    start < close ∧ t.bytes[close]? = some closeBraceByte := by
  rw [matchingBrace?] at h
  split at h
  · rename_i hopen
    obtain ⟨i, hi, rfl⟩ := Option.map_eq_some_iff.mp h
    obtain ⟨⟨x, hx, hcloses⟩, -⟩ := findIdx?_eq_some_iff_getElem?.mp hi
    rw [Bool.and_eq_true, Bool.and_eq_true, beq_iff_eq] at hcloses
    have hbyte := getElem?_bytes_of_scan hx
    rw [hcloses.1.1] at hbyte
    refine ⟨?_, hbyte⟩
    rcases Nat.eq_zero_or_pos i with rfl | hpos
    · rw [List.head?_drop, ← Nat.add_zero start, hbyte] at hopen
      exact absurd hopen (by decide)
    · omega
  · cases h

/-- **The end of a block** is looked for behind any opening brace without a fault, and what is found is a
closing brace behind it. -/
theorem exists_blockEnd (front rest : Text) (allowWord : Bool) :
    ∃ r, blockEnd (front ++ '{' :: rest) front.size allowWord = .ok r ∧ ∀ close, r = some close →
      ∃ body behind, rest = body ++ '}' :: behind ∧ close = front.size + 1 + body.size := by
  set t := front ++ '{' :: rest with ht
  have hcut : ∀ close, front.size < close → t.bytes[close]? = some closeBraceByte →
      ∃ body behind, rest = body ++ '}' :: behind ∧ close = front.size + 1 + body.size := by
    intro close hlt hbyte
    obtain ⟨u, v, huv, rfl⟩ := exists_split_of_closeBraceByte hbyte
    have hfront : u ++ '}' :: v = (front ++ ['{']) ++ rest := by
      rw [← huv, ht]
      simp
    have hsize : (front ++ ['{']).size = front.size + 1 := by
      rw [Text.size_append]
      rfl
    obtain ⟨body, rfl⟩ := Text.exists_of_size_le hfront (by omega)
    refine ⟨body, v, rfl, ?_⟩
    rw [← List.append_assoc] at hfront
    rw [List.append_cancel_right hfront, Text.size_append, hsize]
  rw [blockEnd]
  -- the brace that matches, or else the first one that ends a member
  cases hmatch : matchingBrace? t front.size with
  | some close =>
    refine ⟨some close, rfl, fun close' hclose => ?_⟩
    obtain rfl := Option.some.inj hclose
    obtain ⟨hlt, hbyte⟩ := closeBraceByte_of_matchingBrace? hmatch
    exact hcut close hlt hbyte
  | none =>
    obtain ⟨r, hr, hfirst⟩ := firstMemberEnd_eq t allowWord (closingBraces t (front.size + 1))
      (fun o ho => exists_split_of_closeBraceByte (closeBraceByte_of_mem_closingBraces ho).2)
      (closingBraces_eq t (front.size + 1) ▸ pairwise_places Seen.closes _ _)
    refine ⟨r, hr, fun close hclose => ?_⟩
    obtain ⟨hlt, hbyte⟩ := closeBraceByte_of_mem_closingBraces ((hfirst close).mp hclose).1
    exact hcut close hlt hbyte

theorem slice_body (front body behind : Text) :
    Text.slice (front ++ '{' :: (body ++ '}' :: behind)) (front.size + 1) (front.size + 1 + body.size) = .ok body := by
  have hslice := Text.slice_append (front ++ ['{']) body ('}' :: behind)
  have hsize : (front ++ ['{']).size = front.size + 1 := by
    rw [Text.size_append]
    rfl
  rw [hsize, List.append_assoc] at hslice
  exact hslice

end Block

/-! ## Words -/

/-- Whether a text has only characters of words. -/
def IsWord (t : Text) : Prop := ∀ c ∈ t, isWordChar c = true

/-- Whether a text has no blanks. -/
def Unspaced (t : Text) : Prop := ∀ c ∈ t, isBlank c = false

theorem IsWord.unspaced {t : Text} (h : IsWord t) : Unspaced t := fun c hc => isBlank_of_isWordChar (h c hc)

theorem Unspaced.newline {t : Text} (h : Unspaced t) : '\n' ∉ t := fun hmem => absurd (h _ hmem) (by decide)

/-- Words are not empty and have no blanks, and what holds of the characters of a text holds of those of its words. -/
theorem of_mem_wordsFrom {P : Char → Prop} : ∀ {t word : Text}, (∀ c ∈ word, isBlank c = false ∧ P c) →
    (∀ c ∈ t, P c) → ∀ w ∈ Text.wordsFrom word t, w ≠ [] ∧ ∀ c ∈ w, isBlank c = false ∧ P c
  | [], word, hword, _, w, hw => by
    rw [Text.wordsFrom] at hw
    split at hw
    · cases hw
    · rename_i hne
      rw [List.mem_singleton.mp hw]
      exact ⟨by simpa using hne, fun c hc => hword c (List.mem_reverse.mp hc)⟩
  | c :: t, word, hword, ht, w, hw => by
    have hnil : ∀ c ∈ ([] : Text), isBlank c = false ∧ P c := fun _ h => absurd h List.not_mem_nil
    rw [List.forall_mem_cons] at ht
    rw [Text.wordsFrom] at hw
    split at hw
    · split at hw
      · exact of_mem_wordsFrom hnil ht.2 w hw
      · rename_i hne
        rcases List.mem_cons.mp hw with rfl | hw
        · exact ⟨by simpa using hne, fun c hc => hword c (List.mem_reverse.mp hc)⟩
        · exact of_mem_wordsFrom hnil ht.2 w hw
    · rename_i hc
      exact of_mem_wordsFrom (List.forall_mem_cons.mpr ⟨⟨Bool.eq_false_iff.mpr hc, ht.1⟩, hword⟩) ht.2 w hw

theorem groupAvoids_append (index : Nat) (x : Char) (p q : Pattern) :
    (p ++ q).groupAvoids index x = (p.groupAvoids index x && q.groupAvoids index x) := rfl

theorem groupAvoids_group_word {x : Char} (hx : isWordChar x = false) (index i : Nat) :
    (group i word).groupAvoids index x = true := by
  have hword : word.avoids x = true := by
    show (!isWordChar x && !isWordChar x) = true
    rw [hx]
    rfl
  rw [groupAvoids, hword, Bool.or_true]
  rfl

/-- A group that takes words only. -/
theorem isWord_group {p : Pattern} {k : Cursor} {m : Match} {index : Nat} (h : p.matchAt? k = some m)
    (hp : ∀ x, isWordChar x = false → p.groupAvoids (index + 1) x = true) : IsWord (m.group (index + 1)) := by
  intro c hc
  by_contra hword
  exact not_mem_group_of_groupAvoids h (hp c (Bool.eq_false_iff.mpr hword)) hc

/-! ## Fields -/

/-- A field with words for its type and its name. -/
structure Field.Plain (f : Field) : Prop where
  typeName : IsWord f.typeName
  name : IsWord f.name

theorem fieldPattern_groupAvoids {x : Char} (hx : isWordChar x = false) :
    fieldPattern.groupAvoids 2 x = true ∧ fieldPattern.groupAvoids 3 x = true := by
  constructor
  · rw [fieldPattern]
    simp only [groupAvoids_append, groupAvoids_group_word hx]
    rfl
  · rw [fieldPattern]
    simp only [groupAvoids_append, groupAvoids_group_word hx]
    rfl

theorem mapM_eq_ok {α β : Type} {f : α → Except Fault β} {P : β → Prop} :
    ∀ {xs : List α}, (∀ x ∈ xs, ∃ y, f x = .ok y ∧ P y) → ∃ ys, xs.mapM f = .ok ys ∧ ∀ y ∈ ys, P y
  | [], _ => ⟨[], rfl, by simp⟩
  | x :: xs, h => by
    rw [List.forall_mem_cons] at h
    obtain ⟨⟨y, hy, hPy⟩, hxs⟩ := h
    obtain ⟨ys, hys, hPys⟩ := mapM_eq_ok hxs
    refine ⟨y :: ys, ?_, List.forall_mem_cons.mpr ⟨hPy, hPys⟩⟩
    rw [List.mapM_cons, hy, hys]
    rfl

theorem exists_fieldFindings (source : Text) :
    ∃ xs, fieldFindings source = .ok xs ∧ ∀ f ∈ xs.filterMap FieldFinding.field?, f.Plain := by
  have hfound : ∀ m ∈ fieldPattern.findAll source,
      ∃ x, fieldFinding source m = .ok x ∧ ∀ f, x.field? = some f → f.Plain := by
    intro m hm
    obtain ⟨u, post, hsource, hmatch, -⟩ := exists_of_mem_findAllFrom hm
    obtain ⟨v, s, -, -, his⟩ := exists_first_of_matchAt? hmatch
    obtain ⟨x, hx, hfield⟩ := exists_fieldFinding hsource (his.start.trans (Nat.zero_add _))
    refine ⟨x, hx, fun f hf => ?_⟩
    rw [hfield] at hf
    split at hf
    · obtain rfl := Option.some.inj hf
      exact ⟨isWord_group hmatch fun x hx => (fieldPattern_groupAvoids hx).1,
        isWord_group hmatch fun x hx => (fieldPattern_groupAvoids hx).2⟩
    · cases hf
  obtain ⟨xs, hxs, hplain⟩ := mapM_eq_ok hfound
  refine ⟨xs, hxs, fun f hf => ?_⟩
  obtain ⟨x, hx, hfx⟩ := List.mem_filterMap.mp hf
  exact hplain x hx f hfx

/-! ## Bodies -/

/-- A text without its outer blanks that is part of a source text. -/
theorem trim_infix_source (front body behind : Text) : body.trim <:+: front ++ '{' :: (body ++ '}' :: behind) := by
  refine body.trim_infix.trans ⟨front ++ ['{'], '}' :: behind, ?_⟩
  simp

theorem exists_findMainBody (source : Text) :
    ∃ r, findMainBody source = .ok r ∧ ∀ body, r = some body → body <:+: source := by
  rw [findMainBody]
  cases hfind : mainHeader.find? source with
  | none => exact ⟨none, rfl, by simp⟩
  | some m =>
    obtain ⟨pre, hfirst⟩ := find?_mainHeader_eq_some_iff.mp hfind
    obtain ⟨c, head, rest, hsource, -, -, hbrace⟩ := hfirst.stands.exists_head
    -- cutting is safe as the header ends with its brace, a character of one byte
    have hfront : source = (pre ++ c :: head) ++ '{' :: rest := by rw [hsource, List.append_assoc]
    rw [← Text.size_append] at hbrace
    obtain ⟨r, hr, hcut⟩ := exists_blockEnd (pre ++ c :: head) rest false
    rw [← hfront, ← hbrace] at hr
    dsimp only
    rw [hr]
    cases r with
    | none => exact ⟨none, rfl, by simp⟩
    | some close =>
      obtain ⟨body, behind, rfl, rfl⟩ := hcut close rfl
      have hslice := slice_body (pre ++ c :: head) body behind
      rw [← hfront, ← hbrace] at hslice
      refine ⟨some body.trim, ?_, fun body' hbody' => ?_⟩
      · change (do let body ← source.slice (m.brace + 1) _; _) = _
        rw [hbrace] at hslice ⊢
        rw [hslice]
        rfl
      · obtain rfl := Option.some.inj hbody'
        rw [hfront]
        exact trim_infix_source _ _ _

/-! ## Methods -/

/-- A parameter with a name, and with no blanks and no commas in its type and its name. -/
structure Param.Plain (p : Param) : Prop where
  typeName : Unspaced p.typeName
  name : Unspaced p.name
  name_ne_nil : p.name ≠ []
  comma_typeName : ',' ∉ p.typeName
  comma_name : ',' ∉ p.name

/-- What is known of a method that was read from a source text. -/
structure Method.ReadFrom (source : Text) (m : Method) : Prop where
  returnType : IsWord m.returnType
  name : IsWord m.name
  params : ∀ p ∈ m.params, p.Plain
  body : m.body <:+: source

theorem methodHeader_groupAvoids {x : Char} (hx : isWordChar x = false) :
    methodHeader.groupAvoids 2 x = true ∧ methodHeader.groupAvoids 3 x = true := by
  constructor
  · rw [methodHeader]
    simp only [groupAvoids_append, groupAvoids_group_word hx]
    rfl
  · rw [methodHeader]
    simp only [groupAvoids_append, groupAvoids_group_word hx]
    rfl

theorem plain_of_mem_parseParams {raw : Text} : ∀ p ∈ parseParams raw, p.Plain := by
  intro p hp
  obtain ⟨entry, hmem, hentry⟩ := List.mem_filterMap.mp hp
  have hwords : ∀ w ∈ entry.words.filter (· != ("final" : Text)), w ≠ [] ∧ ∀ c ∈ w, isBlank c = false ∧ c ≠ ',' := by
    intro w hw
    refine of_mem_wordsFrom (fun _ h => absurd h List.not_mem_nil) (fun c hc => ?_) w (List.mem_filter.mp hw).1
    rintro rfl
    exact (Text.not_mem_of_mem_pieces entry hmem).1 hc
  rw [paramOf?] at hentry
  split at hentry
  · rename_i typeName name others hsplit
    rw [hsplit, List.forall_mem_cons, List.forall_mem_cons] at hwords
    obtain ⟨⟨-, htype⟩, ⟨hne, hname⟩, -⟩ := hwords
    obtain rfl := Option.some.inj hentry
    exact
      { typeName := fun c hc => (htype c hc).1
        name := fun c hc => (hname c hc).1
        name_ne_nil := hne
        comma_typeName := fun hc => (htype _ hc).2 rfl
        comma_name := fun hc => (hname _ hc).2 rfl }
  · cases hentry

/-- What is taken for a method is one that was read from the source text. -/
theorem readFrom_of_methodFinding {source className body : Text} {k : Cursor} {x : Match} {m : Method}
    (hx : methodHeader.matchAt? k = some x) (hbody : body.trim <:+: source)
    (hm : (methodFinding className x body).method? = some m) : m.ReadFrom source := by
  rw [methodFinding] at hm
  split at hm
  · cases hm
  · split at hm
    · cases hm
    · obtain rfl := Option.some.inj hm
      exact ⟨isWord_group hx fun x hx => (methodHeader_groupAvoids hx).1,
        isWord_group hx fun x hx => (methodHeader_groupAvoids hx).2, plain_of_mem_parseParams, hbody⟩

/-- Text of the shape of a header ends with an opening brace. -/
theorem exists_brace_of_methodHeader {b : Option Char} {offset : Nat} {t : Text} {x : Match}
    (hx : methodHeader.matchAt? ⟨b, offset, t⟩ = some x) :
    ∃ head rest, t = head ++ '{' :: rest ∧ x.brace = offset + head.size := by
  obtain ⟨v, s, -, ht, his⟩ := exists_first_of_matchAt? hx
  obtain ⟨-, -, g, hfits, -⟩ := fits_of_matchAt? hx
  rw [his.text] at hfits
  obtain ⟨head, _, brace, _, -, hbrace, rfl, -⟩ := hfits
  obtain ⟨rfl, -⟩ := fits_text hbrace
  refine ⟨head, v.rest, by rw [ht, List.append_assoc]; rfl, ?_⟩
  have hsize : (head ++ "\x7b".toList).size = head.size + 1 := by
    rw [Text.size_append]
    rfl
  rw [Match.brace, his.stop, hsize]
  omega

-- The induction is on the text from a place on; what stands before the place only counts for its size.
theorem exists_methodFindingsFrom (source className : Text) : ∀ (t : Text) (u : Text) (b : Option Char) (resume : Nat),
    source = u ++ t → ∃ xs, methodFindingsFrom source className resume b u.size t = .ok xs ∧
      ∀ x ∈ xs, ∀ m, x.method? = some m → m.ReadFrom source
  | [], u, b, resume, _ => ⟨[], rfl, by simp⟩
  | c :: rest, u, b, resume, hsource => by
    -- the offset of the rest is the size of what has been read
    have ih (resume : Nat) : ∃ xs, methodFindingsFrom source className resume (some c) (u.size + c.utf8Size) rest = .ok xs ∧
        ∀ x ∈ xs, ∀ m, x.method? = some m → m.ReadFrom source := by
      have hsize : u.size + c.utf8Size = (u ++ [c]).size := by
        rw [Text.size_append]
        rfl
      rw [hsize]
      exact exists_methodFindingsFrom source className rest (u ++ [c]) (some c) resume (by simp [hsource])
    rw [methodFindingsFrom]
    dsimp only
    split
    · exact ih resume
    · cases hx : methodHeader.matchAt? ⟨b, u.size, c :: rest⟩ with
      | none => exact ih resume
      | some x =>
        dsimp only
        split
        · obtain ⟨head, tail, hhead, hbrace⟩ := exists_brace_of_methodHeader hx
          have hfront : source = (u ++ head) ++ '{' :: tail := by rw [hsource, hhead, List.append_assoc]
          rw [← Text.size_append] at hbrace
          -- the block is cut between two braces, so the cut is no fault
          obtain ⟨r, hr, hcut⟩ := exists_blockEnd (u ++ head) tail true
          rw [← hfront, ← hbrace] at hr
          rw [hr]
          cases r with
          | none => exact ih x.stop
          | some close =>
            obtain ⟨body, behind, rfl, rfl⟩ := hcut close rfl
            have hslice := slice_body (u ++ head) body behind
            rw [← hfront] at hslice
            obtain ⟨xs, hxs, hread⟩ := ih ((u ++ head).size + 1 + body.size + 1)
            refine ⟨methodFinding className x body :: xs, ?_, ?_⟩
            · change (do let body ← source.slice (x.brace + 1) _; _) = _
              rw [hbrace, hslice, hxs]
              rfl
            · rw [List.forall_mem_cons]
              refine ⟨fun m => readFrom_of_methodFinding hx ?_, hread⟩
              rw [hfront]
              exact trim_infix_source _ _ _
        · exact ih x.stop

theorem exists_methodFindings (source className : Text) :
    ∃ xs, methodFindings source className = .ok xs ∧ ∀ m ∈ xs.filterMap MethodFinding.method?, m.ReadFrom source := by
  obtain ⟨xs, hxs, hread⟩ := exists_methodFindingsFrom source className source [] none 0 rfl
  refine ⟨xs, hxs, fun m hm => ?_⟩
  obtain ⟨x, hx, hmx⟩ := List.mem_filterMap.mp hm
  exact hread x hx m hmx

/-! ## Outlines -/

/-- What is known of a class that was read from a source text. -/
structure ClassDecl.ReadFrom (source : Text) (c : ClassDecl) : Prop where
  name : IsWord c.name
  fields : ∀ f ∈ c.fields, f.Plain
  methods : ∀ m ∈ c.methods, m.ReadFrom source

/-- What is known of an outline that was read from a source text. -/
structure Outline.ReadFrom (source : Text) (o : Outline) : Prop where
  class? : ∀ c, o.class? = some c → c.ReadFrom source
  main? : ∀ body, o.main? = some body → body <:+: source

/-- **Every source text has an outline.** -/
theorem exists_readOutline (source : Text) :
    ∃ reading, readOutline source = .ok reading ∧ reading.outline.ReadFrom source := by
  obtain ⟨main?, hmain, hbody⟩ := exists_findMainBody source
  cases hname : findClassName source with
  | none =>
    simp only [readOutline, hmain, hname, bind, Except.bind, pure, Except.pure]
    exact ⟨_, rfl, by simp, hbody⟩
  | some name =>
    obtain ⟨pre, head, rest, rfl, -⟩ := exists_declaredInCode hname
    obtain ⟨fields, hfields, hplain⟩ := exists_fieldFindings source
    obtain ⟨methods, hmethods, hread⟩ := exists_methodFindings source head.name
    simp only [readOutline, hmain, hname, hfields, hmethods, bind, Except.bind, pure, Except.pure]
    refine ⟨_, rfl, fun c hc => ?_, fun body hmain' => ?_⟩
    · obtain rfl := Option.some.inj hc
      exact ⟨head.name_word, hplain, hread⟩
    · exact hbody body (by simpa [Outline.main?] using hmain')

end GoDraft
