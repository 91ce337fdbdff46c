import GoDraft.Proofs.Java.MethodSpans

/-!
# GoDraft — the brace behind a header

The header of a method is told by a pattern that knows neither comments nor literals, and only its first character is
asked to be code. So the brace at its end, where the body begins, may stand in a comment or a literal of the parameter
list, or deeper than the class. Whether it does is told by the header alone, read between two braces. Where it does
not, the body ends where the block ends, and no member of the class begins in it.

* `exists_zoned_brace` — what stands behind a brace does not count for the zones up to it;
* `opensAt_head_iff` — the brace behind a header, by the header alone;
* `methodSpans_opensAt_iff` — all headers that are taken;
* `methodSpans_commentedBrace` — a brace in a comment, and a method that is lost in the body behind it.
-/

namespace GoDraft

open Pattern

/-! ## Zones up to a brace -/

section Letters

variable {α : Type} [Marked α] {a : α}

/-- What stands behind an opening brace does not count for it. -/
theorem Scanner.read_openBrace (s : Scanner) (ha : Marked.mark a = .openBrace) (rest rest' : List α) :
    s.read a rest = s.read a rest' := by
  obtain ⟨z, d, k⟩ := s
  rw [read, read, ha]
  cases k with
  | some z' => rfl
  | none => cases z <;> rfl

theorem Scanner.exists_zones_brace (ha : Marked.mark a = .openBrace) (rest : List α) : ∀ (xs : List α) (s : Scanner),
    ∃ ys, s.zones (xs ++ a :: rest) = s.zones (xs ++ [a]) ++ ys
  | [], s => by
    refine ⟨(s.read a rest).2.zones rest, ?_⟩
    rw [List.nil_append, List.nil_append, zones_cons, zones_cons, s.read_openBrace ha rest []]
    rfl
  | x :: xs, s => by
    have hread : s.read x (xs ++ a :: rest) = s.read x (xs ++ [a]) := by
      cases xs <;> rfl
    obtain ⟨ys, hys⟩ := exists_zones_brace ha rest xs (s.read x (xs ++ [a])).2
    refine ⟨ys, ?_⟩
    rw [List.cons_append, List.cons_append, zones_cons, zones_cons, hread, hys, List.cons_append]

/-- What stands behind an opening brace does not count for the zones up to it. -/
theorem exists_zoned_brace (ha : Marked.mark a = .openBrace) (xs rest : List α) :
    ∃ ys, zoned (xs ++ a :: rest) = zoned (xs ++ [a]) ++ ys := by
  have hcode : Scanner.start.InCode := ⟨rfl, rfl⟩
  rw [← Scanner.zones_eq_zoned hcode, ← Scanner.zones_eq_zoned hcode]
  exact Scanner.exists_zones_brace ha rest xs Scanner.start

end Letters

theorem opensAt_iff {t : Text} {offset depth : Nat} : OpensAt t offset depth ↔
    (zoned t.bytes)[offset]? = some (openBraceByte, .code) ∧ depthAt t offset = depth := by
  constructor
  · intro h
    obtain ⟨hbrace, hdepth⟩ := getElem?_of_spotAt? h
    exact ⟨hbrace, hdepth.symm⟩
  · rintro ⟨hbrace, rfl⟩
    exact spotAt?_eq_some hbrace

/-! ## The brace of a header -/

/-- Where the zones from an offset on are told by a part alone up to its brace, so is whether that brace is code at the
depth of the part. -/
theorem opensAt_iff_of_drop {t : Text} {offset : Nat} {part rest : List UInt8}
    (h : (zoned t.bytes).drop offset = zoned (part ++ openBraceByte :: rest)) :
    OpensAt t (offset + part.length) (depthAt t offset) ↔
      (zoned (part ++ [openBraceByte]))[part.length]? = some (openBraceByte, .code) ∧
        openBraces (depthAt t offset) ((zoned (part ++ [openBraceByte])).take part.length) = depthAt t offset := by
  obtain ⟨ys, hys⟩ := exists_zoned_brace (a := openBraceByte) rfl part rest
  have hlength : (zoned (part ++ [openBraceByte])).length = part.length + 1 := by
    rw [← List.length_map (f := Prod.fst), map_fst_zoned, List.length_append, List.length_singleton]
  rw [hys] at h
  have hbrace : (zoned t.bytes)[offset + part.length]? = (zoned (part ++ [openBraceByte]))[part.length]? := by
    rw [← List.getElem?_drop, h, List.getElem?_append_left (by omega)]
  have hdepth : depthAt t (offset + part.length) =
      openBraces (depthAt t offset) ((zoned (part ++ [openBraceByte])).take part.length) := by
    rw [depthAt_eq_openBraces, depthAt_eq_openBraces, List.take_add, openBraces_append, h,
      List.take_append_of_le_length (by omega)]
  rw [opensAt_iff, hbrace, hdepth]

/-- **The brace behind a header** is code directly inside the class exactly when it is so for the header alone, between
two braces. -/
theorem opensAt_head_iff {pre head rest : Text} {c : Char} (hc : (Marked.mark c : Mark) = .plain)
    (hcode : isCodeAt (pre ++ (c :: head ++ '{' :: rest)) pre.size = true)
    (hdepth : depthAt (pre ++ (c :: head ++ '{' :: rest)) pre.size = 1) :
    OpensAt (pre ++ (c :: head ++ '{' :: rest)) (pre.size + Text.size (c :: head)) 1 ↔
      OpensAt ('{' :: (c :: head ++ ['{'])) (1 + Text.size (c :: head)) 1 := by
  have hwhole : (zoned (Text.bytes (pre ++ (c :: head ++ '{' :: rest)))).drop pre.size =
      zoned (Text.bytes (c :: head) ++ openBraceByte :: rest.bytes) :=
    (drop_zoned_of_isCodeAt hc hcode).trans (congrArg zoned (Text.bytes_append (c :: head) ('{' :: rest)))
  have hzones : zoned (Text.bytes ('{' :: (c :: head ++ ['{']))) =
      (openBraceByte, .code) :: zoned (Text.bytes (c :: head) ++ [openBraceByte]) := by
    have hbytes : Text.bytes ('{' :: (c :: head ++ ['{'])) = openBraceByte :: Text.bytes (c :: head ++ ['{']) := rfl
    rw [hbytes, zoned_cons, Text.bytes_append]
    rfl
  have halone : (zoned (Text.bytes ('{' :: (c :: head ++ ['{'])))).drop 1 =
      zoned (Text.bytes (c :: head) ++ openBraceByte :: []) := by
    rw [hzones, List.drop_one, List.tail_cons]
  have hinside : depthAt ('{' :: (c :: head ++ ['{'])) 1 = 1 := by
    rw [depthAt_eq_openBraces, hzones]
    rfl
  have hsource := opensAt_iff_of_drop hwhole
  have hhead := opensAt_iff_of_drop halone
  rw [hdepth, Text.length_bytes] at hsource
  rw [hinside, Text.length_bytes] at hhead
  rw [hsource, hhead]

theorem MethodSpan.StandsIn.exists_head_opensAt_iff {source : Text} {x : MethodSpan} (h : x.StandsIn source) :
    ∃ head, source.slice x.header.start x.header.brace = .ok head ∧
      (OpensAt source x.header.brace 1 ↔ OpensAt ('{' :: (head ++ ['{'])) (1 + head.size) 1) := by
  obtain ⟨hcode, hdepth⟩ := isCodeAt_of_isMemberAt h.member
  obtain ⟨pre, c, head, rest, rfl, hplain, hstart, hbrace⟩ := h.exists_head
  rw [hstart] at hcode hdepth
  rw [hstart, hbrace]
  exact ⟨c :: head, Text.slice_append pre (c :: head) ('{' :: rest), opensAt_head_iff hplain hcode hdepth⟩

theorem not_isMemberAt_of_depthAt {t : Text} {offset : Nat} (h : 2 ≤ depthAt t offset) :
    isMemberAt t offset = false := by
  rw [Bool.eq_false_iff]
  intro hmember
  have hdepth := (isCodeAt_of_isMemberAt hmember).2
  omega

/-- **The brace of a method.** The search for methods makes no fault, and its methods are told from spans, whose bodies
are the texts between two braces. The first of the two is code directly inside the class exactly when the header alone,
put between two braces, leaves the second of them in code at depth one: the comments and literals that begin in the
header end in it, and so do the blocks. Then the body ends where the block ends, everything in it is at least two deep,
and no member of the class begins in it. -/
theorem methodSpans_opensAt_iff (source className : Text) :
    ∃ spans, methodSpans source = .ok spans ∧
      findMethods source className = .ok (spans.filterMap fun x => (x.finding className).method?) ∧
      ∀ x ∈ spans, source.slice (x.header.brace + 1) x.close = .ok x.body ∧
        (∃ head, source.slice x.header.start x.header.brace = .ok head ∧
          (OpensAt source x.header.brace 1 ↔ OpensAt ('{' :: (head ++ ['{'])) (1 + head.size) 1)) ∧
        (OpensAt source x.header.brace 1 → BlockEndsAt source true x.header.brace 1 x.close ∧
          ∀ o, x.header.brace < o → o ≤ x.close → 2 ≤ depthAt source o ∧ isMemberAt source o = false) := by
  obtain ⟨spans, hspans⟩ := exists_methodSpans source
  have hwhole : source = [] ++ source := rfl
  obtain ⟨hstand, -⟩ := methodSpansFrom_standIn source [] hwhole hspans
  refine ⟨spans, hspans, findMethods_eq_methodSpans hspans className, fun x hx => ?_⟩
  obtain ⟨hx, -⟩ := hstand x hx
  refine ⟨hx.body, hx.exists_head_opensAt_iff, fun hopen => ⟨hx.blockEndsAt hopen, fun o hbehind hbefore => ?_⟩⟩
  have hdeep := hx.lt_depthAt hopen o hbehind hbefore
  exact ⟨hdeep, not_isMemberAt_of_depthAt hdeep⟩

/-- A brace and a quote in a comment of the header do not hide the brace behind it. -/
theorem methodSpans_opensAt_iff_remark :
    ∃ x, methodSpans "class A \x7b int f(int a /* \x7b ' */) \x7b return a; \x7d \x7d" = .ok [x] ∧
      x.header.brace = 33 ∧ x.close = 45 ∧
      OpensAt "class A \x7b int f(int a /* \x7b ' */) \x7b return a; \x7d \x7d" 33 1 ∧
      ∀ o, 33 < o → o ≤ 45 → isMemberAt "class A \x7b int f(int a /* \x7b ' */) \x7b return a; \x7d \x7d" o = false := by
  obtain ⟨spans, hspans, -, hall⟩ :=
    methodSpans_opensAt_iff "class A \x7b int f(int a /* \x7b ' */) \x7b return a; \x7d \x7d" "A"
  have hplaces : (methodSpans "class A \x7b int f(int a /* \x7b ' */) \x7b return a; \x7d \x7d").toOption.map
      (List.map fun x => (x.header.start, x.header.brace, x.close)) = some [(10, 33, 45)] := by decide +kernel
  rw [hspans] at hplaces
  obtain ⟨x, rfl, hx⟩ := List.map_eq_singleton_iff.mp (Option.some.inj hplaces)
  obtain ⟨hstart, hbrace, hclose⟩ : x.header.start = 10 ∧ x.header.brace = 33 ∧ x.close = 45 := by
    simpa only [Prod.mk.injEq] using hx
  obtain ⟨-, ⟨head, hhead, hiff⟩, hinside⟩ := hall x List.mem_cons_self
  rw [hstart, hbrace] at hhead
  obtain rfl : "int f(int a /* \x7b ' */) ".toList = head := Except.ok.inj hhead
  have hopen := hiff.mpr (by unfold OpensAt; decide +kernel)
  have hmembers := (hinside hopen).2
  rw [hbrace, hclose] at hmembers
  rw [hbrace] at hopen
  exact ⟨x, hspans, hbrace, hclose, hopen, fun o hbehind hbefore => (hmembers o hbehind hbefore).2⟩

/-- A method without a body, with a brace in a comment of its header, and one with a body behind it. -/
def commentedBrace : Text :=
  "class A \x7b\nabstract int f(int a /* ) \x7b */);\nint g() \x7b return 1; \x7d\n\x7d"

/-- The brace in the comment is taken, and with the body behind it the other method is lost. -/
theorem methodSpans_commentedBrace :
    (methodSpans commentedBrace).toOption.map (List.map fun x => x.header.brace) = some [36] ∧
      spotAt? commentedBrace 36 = some ⟨36, openBraceByte, .blockComment, 1⟩ ∧ ¬ OpensAt commentedBrace 36 1 ∧
      findMethods commentedBrace "A" =
        .ok [⟨.unmarked, "int", "f", [⟨"int", "a"⟩], "*/);\nint g() \x7b return 1; \x7d"⟩] := by
  refine ⟨by decide +kernel, by decide +kernel, ?_, by decide +kernel⟩
  unfold OpensAt
  decide +kernel

end GoDraft
