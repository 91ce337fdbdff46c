import GoDraft.Proofs.Java.FieldFindings
import GoDraft.Proofs.Java.MainSearch
import GoDraft.Proofs.Java.MethodRounds

/-!
# GoDraft — methods lie below the class, one behind the other

The search for methods takes a header that begins in code directly inside the class, with the block behind it, and
goes on behind that block. So the spans of the members it takes, from header to closing brace, are apart and in the
order of the text. Where nothing in a header hides its brace from the scan, the brace opens a block inside the class,
and everything up to the end that the search tells is deeper: at the matching brace, or at a guess where there is
none. No field of the class begins there.

* `MethodSpan`, `methodSpans` — the members that the search takes, with their places;
* `findMethods_eq_methodSpans` — the methods are told from the spans;
* `methodSpansFrom_standIn` — where the spans are;
* `MethodSpan.StandsIn.lt_depthAt` — the depth inside a block;
* `methodSpans_below_class` — all of it for every source text.
-/

namespace GoDraft

open Pattern

/-- What comes of two steps that did not fault comes of each of them. -/
theorem exists_of_bind_eq_ok {α β : Type} {x : Except Fault α} {f : α → Except Fault β} {b : β}
    (h : (do f (← x)) = .ok b) : ∃ a, x = .ok a ∧ f a = .ok b := by
  cases x with
  | error fault => cases h
  | ok a => exact ⟨a, rfl, h⟩

/-! ## Spans -/

/-- A header with the block behind it: the offset of the brace that ends the block, and the text before that brace. -/
structure MethodSpan where
  header : Match
  close : Nat
  body : Text

/-- What a span is taken for. -/
def MethodSpan.finding (className : Text) (x : MethodSpan) : MethodFinding := methodFinding className x.header x.body

/-- The spans from a place on, the place given by its three parts. Headers are looked for at offsets from `resume`
on. -/
def methodSpansFrom (source : Text) (resume : Nat) (before : Option Char) (offset : Nat) :
    Text → Except Fault (List MethodSpan)
  | [] => .ok []
  | c :: rest =>
    let go (resume : Nat) := methodSpansFrom source resume (some c) (offset + c.utf8Size) rest
    if offset < resume then go resume
    else
      match methodHeader.matchAt? ⟨before, offset, c :: rest⟩ with
      | none => go resume
      | some m =>
        if isMemberAt source m.start then do
          match ← blockEnd source m.brace true with
          | none => go m.stop
          | some close =>
            let body ← source.slice (m.brace + 1) close
            return ⟨m, close, body⟩ :: (← go (close + 1))
        else go m.stop

/-- The spans of a source text, in the order of the text. -/
def methodSpans (source : Text) : Except Fault (List MethodSpan) := methodSpansFrom source 0 none 0 source

/-- What the search finds is what it makes of the spans. -/
theorem methodFindingsFrom_eq_methodSpansFrom (source className : Text) : ∀ (t : Text) (resume : Nat)
    (b : Option Char) (offset : Nat), methodFindingsFrom source className resume b offset t =
      (methodSpansFrom source resume b offset t).map (List.map (MethodSpan.finding className))
  | [], resume, b, offset => rfl
  | c :: rest, resume, b, offset => by
    have ih (resume : Nat) := methodFindingsFrom_eq_methodSpansFrom source className rest resume (some c)
      (offset + c.utf8Size)
    rw [methodFindingsFrom, methodSpansFrom]
    dsimp only
    split
    · exact ih resume
    · cases methodHeader.matchAt? ⟨b, offset, c :: rest⟩ with
      | none => exact ih resume
      | some m =>
        dsimp only
        split
        · cases blockEnd source m.brace true with
          | error fault => rfl
          | ok close? =>
            cases close? with
            | none => exact ih m.stop
            | some close =>
              dsimp only [bind, Except.bind]
              cases source.slice (m.brace + 1) close with
              | error fault => rfl
              | ok body =>
                rw [ih (close + 1)]
                cases methodSpansFrom source (close + 1) (some c) (offset + c.utf8Size) rest <;> rfl
        · exact ih m.stop

/-- The search for spans never faults. -/
theorem exists_methodSpans (source : Text) : ∃ xs, methodSpans source = .ok xs := by
  obtain ⟨found, hfound, -⟩ := exists_methodFindings source []
  rw [methodFindings, methodFindingsFrom_eq_methodSpansFrom, ← methodSpans] at hfound
  cases hspans : methodSpans source with
  | error fault =>
    rw [hspans] at hfound
    cases hfound
  | ok xs => exact ⟨xs, rfl⟩

/-- **Methods from spans**: the methods of the class are the spans that are taken for one. -/
theorem findMethods_eq_methodSpans {source : Text} {xs : List MethodSpan} (h : methodSpans source = .ok xs)
    (className : Text) :
    findMethods source className = .ok (xs.filterMap fun x => (x.finding className).method?) := by
  have hfindings : methodFindings source className = .ok (xs.map (MethodSpan.finding className)) := by
    rw [methodFindings, methodFindingsFrom_eq_methodSpansFrom, ← methodSpans, h]
    rfl
  have hmethods : (xs.map (MethodSpan.finding className)).filterMap MethodFinding.method? =
      xs.filterMap fun x => (x.finding className).method? := List.filterMap_map
  rw [findMethods, hfindings, ← hmethods]
  rfl

/-! ## Where the spans are -/

/-- A span stands in a source text: its header is a match that begins where a member can begin, the search for the
end of the block gives its end, and its body is the text between the two braces. -/
structure MethodSpan.StandsIn (source : Text) (x : MethodSpan) : Prop where
  header : ∃ pre, methodHeader.MatchesBehind none 0 source pre x.header
  member : isMemberAt source x.header.start = true
  ends : blockEnd source x.header.brace true = .ok (some x.close)
  body : source.slice (x.header.brace + 1) x.close = .ok x.body

/-- A span ends before another one begins. -/
def MethodSpan.IsBefore (x y : MethodSpan) : Prop := x.close < y.header.start

section Spans

variable {source : Text}

/-- One place of the search: it goes on further behind, or it takes a span and goes on behind it. -/
theorem methodSpansFrom_cons {resume offset : Nat} {b : Option Char} {c : Char} {rest : Text} {xs : List MethodSpan}
    (h : methodSpansFrom source resume b offset (c :: rest) = .ok xs) :
    (∃ next, resume ≤ next ∧ methodSpansFrom source next (some c) (offset + c.utf8Size) rest = .ok xs) ∨
      ∃ x ys, xs = x :: ys ∧ resume ≤ offset ∧ methodHeader.matchAt? ⟨b, offset, c :: rest⟩ = some x.header ∧
        isMemberAt source x.header.start = true ∧ blockEnd source x.header.brace true = .ok (some x.close) ∧
        source.slice (x.header.brace + 1) x.close = .ok x.body ∧
        methodSpansFrom source (x.close + 1) (some c) (offset + c.utf8Size) rest = .ok ys := by
  rw [methodSpansFrom] at h
  dsimp only at h
  split at h
  · exact .inl ⟨resume, Nat.le_refl _, h⟩
  · rename_i hresume
    cases hm : methodHeader.matchAt? ⟨b, offset, c :: rest⟩ with
    | none =>
      rw [hm] at h
      exact .inl ⟨resume, Nat.le_refl _, h⟩
    | some m =>
      rw [hm] at h
      -- a header reaches past where the search may start, so going on behind it goes forward
      have hstop : resume ≤ m.stop := by
        obtain ⟨_, _, _, hbrace⟩ := exists_brace_of_methodHeader hm
        have hend := stop_of_methodHeader hm
        omega
      dsimp only at h
      split at h
      · rename_i hmember
        obtain ⟨close?, hclose, h⟩ := exists_of_bind_eq_ok h
        cases close? with
        | none => exact .inl ⟨m.stop, hstop, h⟩
        | some close =>
          obtain ⟨body, hbody, h⟩ := exists_of_bind_eq_ok h
          obtain ⟨ys, hys, h⟩ := exists_of_bind_eq_ok h
          obtain rfl := Except.ok.inj h
          exact .inr ⟨⟨m, close, body⟩, ys, rfl, Nat.not_lt.mp hresume, rfl, hmember, hclose, hbody, hys⟩
      · exact .inl ⟨m.stop, hstop, h⟩

-- The induction is on the text from a place on; `u` is the text before that place.
/-- The spans stand in the text, none before the offset where the search goes on, and each behind the one before. -/
theorem methodSpansFrom_standIn : ∀ (t u : Text) {resume : Nat} {xs : List MethodSpan}, source = u ++ t →
    methodSpansFrom source resume (lastOf none u) u.size t = .ok xs →
      (∀ x ∈ xs, x.StandsIn source ∧ resume ≤ x.header.start) ∧ xs.Pairwise MethodSpan.IsBefore
  | [], u, resume, xs, _, hxs => by
    obtain rfl : [] = xs := Except.ok.inj hxs
    exact ⟨by simp, .nil⟩
  | c :: rest, u, resume, xs, hsource, hxs => by
    have hsize : u.size + c.utf8Size = (u ++ [c]).size := by
      rw [Text.size_append]
      rfl
    have hlast : some c = lastOf none (u ++ [c]) := by simp [lastOf]
    have hrest : source = (u ++ [c]) ++ rest := by simp [hsource]
    rcases methodSpansFrom_cons hxs with
      ⟨next, hnext, hgo⟩ | ⟨x, ys, rfl, hresume, hmatch, hmember, hends, hbody, hgo⟩
    · rw [hsize, hlast] at hgo
      obtain ⟨hstand, hpairs⟩ := methodSpansFrom_standIn rest (u ++ [c]) hrest hgo
      exact ⟨fun x hx => ⟨(hstand x hx).1, hnext.trans (hstand x hx).2⟩, hpairs⟩
    · rw [hsize, hlast] at hgo
      obtain ⟨hstand, hpairs⟩ := methodSpansFrom_standIn rest (u ++ [c]) hrest hgo
      obtain ⟨_, _, _, _, his⟩ := exists_first_of_matchAt? hmatch
      obtain ⟨_, _, _, hbrace⟩ := exists_brace_of_methodHeader hmatch
      have hstart : resume ≤ x.header.start := by rwa [his.start]
      -- the search goes on behind the block, which is further
      have hclose : resume ≤ x.close + 1 := by
        have hle := (Text.exists_slice_iff.mp ⟨x.body, hbody⟩).1
        omega
      have hheader : methodHeader.MatchesBehind none 0 source u x.header :=
        ⟨c :: rest, hsource, by rw [Nat.zero_add]; exact hmatch⟩
      refine ⟨?_, List.pairwise_cons.mpr ⟨fun y hy => (hstand y hy).2, hpairs⟩⟩
      rw [List.forall_mem_cons]
      exact ⟨⟨⟨⟨u, hheader⟩, hmember, hends, hbody⟩, hstart⟩,
        fun y hy => ⟨(hstand y hy).1, hclose.trans (hstand y hy).2⟩⟩

end Spans

/-! ## Depths -/

theorem isCodeAt_of_isMemberAt {t : Text} {offset : Nat} (h : isMemberAt t offset = true) :
    isCodeAt t offset = true ∧ depthAt t offset = 1 := by
  unfold isMemberAt at h
  unfold isCodeAt
  cases hspot : spotAt? t offset with
  | none =>
    rw [hspot] at h
    cases h
  | some s =>
    rw [hspot] at h
    have hmember : (s.depth == 1 && s.zone.isCode) = true := h
    rw [Bool.and_eq_true, beq_iff_eq] at hmember
    exact ⟨hmember.2, (getElem?_of_spotAt? hspot).2.symm.trans hmember.1⟩

/-- A field begins where a member can begin. -/
theorem isMemberAt_of_fieldFinding {source : Text} {m : Match} {f : Field}
    (h : fieldFinding source m = .ok (.field f)) : isMemberAt source m.start = true := by
  obtain ⟨static, -, h⟩ := exists_of_bind_eq_ok h
  cases static with
  | true => cases h
  | false =>
    cases hmember : isMemberAt source m.start with
    | true => rfl
    | false =>
      rw [hmember] at h
      cases h

namespace MethodSpan.StandsIn

variable {source : Text} {x : MethodSpan}

/-- A header is text that begins with a plain character, and a brace. -/
theorem exists_head (h : x.StandsIn source) : ∃ (pre : Text) (c : Char) (head rest : Text),
    source = pre ++ (c :: head ++ '{' :: rest) ∧ (Marked.mark c : Mark) = .plain ∧
      x.header.start = pre.size ∧ x.header.brace = pre.size + Text.size (c :: head) := by
  obtain ⟨pre, post, rfl, hmatch⟩ := h.header
  rw [Nat.zero_add] at hmatch
  obtain ⟨_, _, hfirst, _, his⟩ := exists_first_of_matchAt? hmatch
  obtain ⟨head, rest, rfl, hbrace⟩ := exists_brace_of_methodHeader hmatch
  have hrejects : methodHeader.rejectsAll markedChars = true := by decide +kernel
  have hstart : ∀ c, (head ++ '{' :: rest).head? = some c → c ∉ markedChars := by
    intro c hc hmarked
    rw [First, rejects_of_rejectsAll hrejects hmarked _ hc] at hfirst
    cases hfirst
  cases head with
  | nil => exact absurd (by decide) (hstart '{' rfl)
  | cons c head => exact ⟨pre, c, head, rest, rfl, mark_eq_plain (hstart c rfl), his.start, hbrace⟩

/-- The text of a header up to its brace. Where it is quiet the brace is code, directly inside the class. -/
theorem exists_quiet_head (h : x.StandsIn source) : x.header.start < x.header.brace ∧
    ∃ head, source.slice x.header.start x.header.brace = .ok head ∧
      (IsQuiet head → OpensAt source x.header.brace 1) := by
  obtain ⟨hcode, hdepth⟩ := isCodeAt_of_isMemberAt h.member
  obtain ⟨pre, c, head, rest, rfl, hplain, hstart, hbrace⟩ := h.exists_head
  rw [hstart] at hcode hdepth
  rw [hstart, hbrace]
  refine ⟨?_, c :: head, Text.slice_append pre (c :: head) ('{' :: rest), fun hquiet => ?_⟩
  · have hpos := c.utf8Size_pos
    rw [Text.size_cons]
    omega
  · have hopen := opensAt_of_isQuiet hplain hquiet hcode
    rwa [hdepth] at hopen

/-- A span whose brace is code, directly inside the class, ends where the block ends. -/
theorem blockEndsAt (h : x.StandsIn source) (hopen : OpensAt source x.header.brace 1) :
    BlockEndsAt source true x.header.brace 1 x.close := by
  obtain ⟨r, hr, hends⟩ := hopen.blockEnd_eq true
  obtain rfl : r = some x.close := Except.ok.inj (hr.symm.trans h.ends)
  exact (hends x.close).mp rfl

/-- Such a span is deeper than the class up to its end. -/
theorem lt_depthAt (h : x.StandsIn source) (hopen : OpensAt source x.header.brace 1) :
    ∀ o, x.header.brace < o → o ≤ x.close → 2 ≤ depthAt source o :=
  (h.blockEndsAt hopen).lt_depthAt hopen

theorem brace_lt_close (h : x.StandsIn source) : x.header.brace < x.close :=
  (Text.exists_slice_iff.mp ⟨x.body, h.body⟩).1

end MethodSpan.StandsIn

/-! ## All spans -/

theorem body_of_methodFinding {className body : Text} {m : Match} {f : Method}
    (h : methodFinding className m body = .method f) : f.body = body.trim := by
  unfold methodFinding at h
  split at h
  · cases h
  · split at h
    · cases h
    · cases h
      rfl

/-- **Methods lie below the class, one behind the other.** The search for methods makes no fault. Its methods are
told from spans, which are apart and in the order of the text. Each begins with a header directly inside the class and
ends where the search for the end of its block says, and its body is the text between the braces, without the blanks
at the ends. Where the header has neither quotes nor slashes nor braces before its last one, the text behind that
brace is at least two deep up to the end of the block, and nothing that begins there is taken for a field. -/
theorem methodSpans_below_class (source className : Text) :
    ∃ spans, methodSpans source = .ok spans ∧
      findMethods source className = .ok (spans.filterMap fun x => (x.finding className).method?) ∧
      spans.Pairwise (fun x y => x.close < y.header.start) ∧
      ∀ x ∈ spans, (∃ pre, methodHeader.MatchesBehind none 0 source pre x.header) ∧
        isMemberAt source x.header.start = true ∧ x.header.start < x.header.brace ∧ x.header.brace < x.close ∧
        blockEnd source x.header.brace true = .ok (some x.close) ∧
        source.slice (x.header.brace + 1) x.close = .ok x.body ∧
        (∀ m, x.finding className = .method m → m.body = x.body.trim) ∧
        ∃ head, source.slice x.header.start x.header.brace = .ok head ∧
          ((∀ c ∈ head, c ∉ loudChars) →
            (∀ o, x.header.brace < o → o ≤ x.close → 2 ≤ depthAt source o) ∧
            ∀ m ∈ fieldPattern.findAll source, x.header.brace < m.start → m.start ≤ x.close →
              ∀ f, fieldFinding source m ≠ .ok (.field f)) := by
  obtain ⟨spans, hspans⟩ := exists_methodSpans source
  have hwhole : source = [] ++ source := rfl
  obtain ⟨hstand, hpairs⟩ := methodSpansFrom_standIn source [] hwhole hspans
  refine ⟨spans, hspans, findMethods_eq_methodSpans hspans className, hpairs, fun x hx => ?_⟩
  obtain ⟨hx, -⟩ := hstand x hx
  obtain ⟨hlt, head, hhead, hopen⟩ := hx.exists_quiet_head
  refine ⟨hx.header, hx.member, hlt, hx.brace_lt_close, hx.ends, hx.body, fun m hm => body_of_methodFinding hm, head,
    hhead, fun hquiet => ?_⟩
  have hdeep := hx.lt_depthAt (hopen fun c hc => isQuiet_of_not_mem (hquiet c hc))
  refine ⟨hdeep, fun m _ hbehind hbefore f hf => ?_⟩
  have hdepth := (isCodeAt_of_isMemberAt (isMemberAt_of_fieldFinding hf)).2
  have hdeeper := hdeep m.start hbehind hbefore
  omega

/-- A method whose block is not closed: its end is a guess, and the variable in it is no field. -/
theorem methodSpans_below_class_unclosed :
    ∃ x, methodSpans "class A \x7b int y; void g() \x7b \x7b int x; \x7d void h() \x7b \x7d " = .ok [x] ∧
      x.header.start = 17 ∧ x.header.brace = 26 ∧ x.close = 37 ∧
      ∀ o, 26 < o → o ≤ 37 →
        2 ≤ depthAt "class A \x7b int y; void g() \x7b \x7b int x; \x7d void h() \x7b \x7d " o := by
  obtain ⟨spans, hspans, -, -, hall⟩ := methodSpans_below_class
    "class A \x7b int y; void g() \x7b \x7b int x; \x7d void h() \x7b \x7d " "A"
  have hplaces : (methodSpans "class A \x7b int y; void g() \x7b \x7b int x; \x7d void h() \x7b \x7d ").toOption.map
      (List.map fun x => (x.header.start, x.header.brace, x.close)) = some [(17, 26, 37)] := by decide +kernel
  rw [hspans] at hplaces
  obtain ⟨x, rfl, hx⟩ := List.map_eq_singleton_iff.mp (Option.some.inj hplaces)
  obtain ⟨hstart, hbrace, hclose⟩ : x.header.start = 17 ∧ x.header.brace = 26 ∧ x.close = 37 := by
    simpa only [Prod.mk.injEq] using hx
  obtain ⟨-, -, -, -, -, -, -, head, hhead, hdeep⟩ := hall x List.mem_cons_self
  rw [hstart, hbrace] at hhead
  obtain rfl : "void g() ".toList = head := Except.ok.inj hhead
  have hdepth := (hdeep (by decide)).1
  rw [hbrace, hclose] at hdepth
  exact ⟨x, hspans, hstart, hbrace, hclose, hdepth⟩

end GoDraft
