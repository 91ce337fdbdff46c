import GoDraft.Java.Block
import GoDraft.Proofs.Scan.Blocks
import GoDraft.Proofs.Scan.Comments
import GoDraft.Proofs.Text.Boundary
import Mathlib.Data.List.Pairwise

/-!
# GoDraft — where a block ends

The end of a block is looked for in two ways. First comes the brace that matches the opening one. Without
one, the first closing brace that looks like the end of a member is taken, found by a scan of its own from
the opening brace on. Where the scan of the whole text has the opening brace as code, both can be told from
that scan, and the search never faults: a brace is one byte, so a cut next to it is between characters.

* `Text.exists_split_of_byte` — a byte with a mark is a character of its own;
* `OpensAt.mem_closingBraces_iff` — the closing braces behind an opening one;
* `BlockEndsAt` — the end of a block by the scan of the whole text;
* `OpensAt.blockEnd_eq` — the search gives it.
-/

namespace GoDraft

/-! ## Bytes that are characters -/

/-- A byte with a mark is a character of its own. -/
theorem Text.exists_split_of_byte : ∀ {t : Text} {i : Nat} {b : UInt8}, t.bytes[i]? = some b →
    (Marked.mark b : Mark) ≠ .plain →
      ∃ (u : Text) (c : Char) (v : Text), t = u ++ c :: v ∧ u.size = i ∧
        (Marked.mark c : Mark) = Marked.mark b
  | [], i, b, h, _ => by simp [bytes] at h
  | c :: t, i, b, h, hb => by
    rw [bytes, List.flatMap_cons, ← bytes] at h
    rcases Nat.lt_or_ge i (String.utf8EncodeChar c).length with hlt | hge
    · rw [List.getElem?_append_left hlt] at h
      rcases mark_of_mem_encode (List.mem_of_getElem? h) with hmark | hplain
      · obtain ⟨b', hbytes, -⟩ := encode_of_marked (c := c) (by rwa [← hmark])
        have hzero : i = 0 := by
          rw [hbytes, List.length_singleton] at hlt
          omega
        exact ⟨[], c, t, rfl, hzero ▸ rfl, hmark.symm⟩
      · exact absurd hplain hb
    · rw [List.getElem?_append_right hge] at h
      obtain ⟨u, d, v, rfl, hsize, hmark⟩ := exists_split_of_byte h hb
      refine ⟨c :: u, d, v, rfl, ?_, hmark⟩
      rw [size_cons, hsize, ← String.length_utf8EncodeChar]
      omega

theorem exists_split_of_closeBraceByte {t : Text} {offset : Nat} (h : t.bytes[offset]? = some closeBraceByte) :
    ∃ u v : Text, t = u ++ '}' :: v ∧ u.size = offset := by
  obtain ⟨u, c, v, rfl, hsize, hmark⟩ := Text.exists_split_of_byte h (by decide)
  obtain rfl : c = '}' := eq_of_mark hmark (by decide)
  exact ⟨u, v, rfl, hsize⟩

/-- A closing brace splits its text. -/
theorem ClosesAt.exists_split {t : Text} {offset depth : Nat} (h : ClosesAt t offset depth) :
    ∃ u v : Text, t = u ++ '}' :: v ∧ u.size = offset := by
  obtain ⟨hzone, -⟩ := getElem?_of_spotAt? h
  apply exists_split_of_closeBraceByte
  rw [← map_fst_zoned t.bytes, List.getElem?_map, hzone]
  rfl

/-! ## The closing braces behind an opening one -/

section Places

variable {β : Type} {p : β → Bool} {xs : List β} {n o : Nat}

/-- The places of the entries that pass a test. -/
theorem mem_places_iff :
    o ∈ ((xs.zipIdx n).filter fun x => p x.1).map Prod.snd ↔ n ≤ o ∧ ∃ x ∈ xs[o - n]?, p x = true := by
  rw [List.mem_map]
  constructor
  · rintro ⟨⟨x, i⟩, hx, rfl⟩
    rw [List.mem_filter, List.mk_mem_zipIdx_iff_le_and_getElem?_sub] at hx
    exact ⟨hx.1.1, x, hx.1.2, hx.2⟩
  · rintro ⟨hle, x, hx, hp⟩
    refine ⟨(x, o), ?_, rfl⟩
    rw [List.mem_filter, List.mk_mem_zipIdx_iff_le_and_getElem?_sub]
    exact ⟨⟨hle, hx⟩, hp⟩

theorem pairwise_places (p : β → Bool) (xs : List β) (n : Nat) :
    (((xs.zipIdx n).filter fun x => p x.1).map Prod.snd).Pairwise (· < ·) := by
  have hall : ((xs.zipIdx n).map Prod.snd).Pairwise (· < ·) := by
    rw [List.zipIdx_map_snd]
    exact List.pairwise_lt_range'
  exact hall.sublist (List.filter_sublist.map _)

end Places

section Block

variable {t : Text} {start depth : Nat}

theorem OpensAt.zoned_drop_succ (h : OpensAt t start depth) :
    zoned (t.bytes.drop (start + 1)) = zonesBehind t start := by
  have hdrop := h.zoned_drop
  obtain ⟨hbrace, -⟩ := getElem?_of_spotAt? h
  have hbyte : t.bytes[start]? = some openBraceByte := by
    rw [← map_fst_zoned t.bytes, List.getElem?_map, hbrace]
    rfl
  obtain ⟨hlt, hget⟩ := List.getElem?_eq_some_iff.mp hbyte
  rw [List.drop_eq_getElem_cons hlt, hget, zoned_cons] at hdrop
  exact (List.cons.inj hdrop).2

theorem closesAt_of_isClosing {offset : Nat} {x : UInt8 × Zone} (hx : (zoned t.bytes)[offset]? = some x)
    (h : isClosing x = true) : ClosesAt t offset (depthAt t offset) := by
  obtain ⟨b, z⟩ := x
  rw [isClosing_eq, Bool.and_eq_true, beq_iff_eq] at h
  obtain ⟨rfl, hcode⟩ := h
  cases z with
  | code => exact spotAt?_eq_some hx
  | _ => cases hcode

/-- Whether a byte was seen as a closing brace in code. -/
def Seen.closes (x : Seen UInt8) : Bool := isClosing (x.letter, x.zone)

theorem closingBraces_eq (t : Text) (start : Nat) :
    closingBraces t start =
      (((scan (t.bytes.drop start)).zipIdx start).filter fun x => x.1.closes).map Prod.snd := by
  simp only [closingBraces, Seen.closes, isClosing_eq]

/-- A scan from behind an opening brace on finds the closing braces of the scan of the whole text. -/
theorem OpensAt.mem_closingBraces_iff (h : OpensAt t start depth) {offset : Nat} :
    offset ∈ closingBraces t (start + 1) ↔ start < offset ∧ ∃ d, ClosesAt t offset d := by
  -- the depths of the two scans differ, but not the zones, and a closing brace is told by its zone
  have hzones : (scan (t.bytes.drop (start + 1))).map (fun x => (x.letter, x.zone)) = zonesBehind t start := by
    rw [map_letter_zone_scan, h.zoned_drop_succ]
  have hplace : ∀ {x : Seen UInt8}, start + 1 ≤ offset →
      x ∈ (scan (t.bytes.drop (start + 1)))[offset - (start + 1)]? →
        (zoned t.bytes)[offset]? = some (x.letter, x.zone) := by
    intro x hle hx
    have hbehind : (zonesBehind t start)[offset - (start + 1)]? = some (x.letter, x.zone) := by
      rw [← hzones, List.getElem?_map, hx]
      rfl
    rw [zonesBehind, List.getElem?_drop, Nat.add_sub_cancel' hle] at hbehind
    exact hbehind
  rw [closingBraces_eq, mem_places_iff]
  constructor
  · rintro ⟨hle, x, hx, hclosing⟩
    exact ⟨hle, _, closesAt_of_isClosing (hplace hle hx) hclosing⟩
  · rintro ⟨hlt, d, hcloses⟩
    obtain ⟨hzone, -⟩ := getElem?_of_spotAt? hcloses
    have hbehind : (zonesBehind t start)[offset - (start + 1)]? = some (closeBraceByte, .code) := by
      rw [zonesBehind, List.getElem?_drop, Nat.add_sub_cancel' hlt]
      exact hzone
    rw [← hzones, List.getElem?_map, Option.map_eq_some_iff] at hbehind
    obtain ⟨x, hx, hpair⟩ := hbehind
    obtain ⟨hletter, hcode⟩ := Prod.mk.inj hpair
    refine ⟨hlt, x, hx, ?_⟩
    rw [Seen.closes, hletter, hcode]
    rfl

/-! ## The end of a member -/

/-- At an offset there is a closing brace, and what stands behind it lets it end a member. -/
def EndsMemberAt (t : Text) (allowWord : Bool) (offset : Nat) : Prop :=
  ∃ u v : Text, t = u ++ '}' :: v ∧ u.size = offset ∧ endsMember v allowWord = true

theorem slice_behind (u v : Text) :
    Text.slice (u ++ '}' :: v) (u.size + 1) (Text.size (u ++ '}' :: v)) = .ok v := by
  have hslice := Text.slice_append (u ++ ['}']) v []
  have hsize : Text.size (u ++ ['}']) = u.size + 1 := by
    rw [Text.size_append]
    rfl
  rw [List.append_nil, List.append_assoc, List.singleton_append, ← Text.size_append, hsize] at hslice
  rw [← hslice, List.append_assoc]
  rfl

theorem endsMemberAt_append_iff (u v : Text) (allowWord : Bool) :
    EndsMemberAt (u ++ '}' :: v) allowWord u.size ↔ endsMember v allowWord = true := by
  constructor
  · rintro ⟨u', v', heq, hsize, hends⟩
    obtain ⟨-, hrest⟩ := Text.append_inj_of_size_eq heq hsize.symm
    obtain rfl := (List.cons.inj hrest).2
    exact hends
  · exact fun hends => ⟨u, v, rfl, rfl, hends⟩

/-- The search through some offsets of closing braces gives the first that ends a member. -/
theorem firstMemberEnd_eq (t : Text) (allowWord : Bool) (offsets : List Nat)
    (hsplit : ∀ o ∈ offsets, ∃ u v : Text, t = u ++ '}' :: v ∧ u.size = o)
    (hsorted : offsets.Pairwise (· < ·)) :
    ∃ r, firstMemberEnd t allowWord offsets = .ok r ∧ ∀ close, r = some close ↔
      close ∈ offsets ∧ EndsMemberAt t allowWord close ∧
        ∀ o ∈ offsets, o < close → ¬ EndsMemberAt t allowWord o := by
  induction offsets with
  | nil => exact ⟨none, rfl, fun close => by simp⟩
  | cons o offsets ih =>
    rw [List.forall_mem_cons] at hsplit
    rw [List.pairwise_cons] at hsorted
    obtain ⟨r, hr, hfirst⟩ := ih hsplit.2 hsorted.2
    obtain ⟨⟨u, v, rfl, rfl⟩, -⟩ := hsplit
    have hstep : firstMemberEnd (u ++ '}' :: v) allowWord (u.size :: offsets) =
        if endsMember v allowWord then .ok (some u.size)
        else firstMemberEnd (u ++ '}' :: v) allowWord offsets := by
      rw [firstMemberEnd, slice_behind]
      rfl
    rw [hstep]
    -- the offsets ascend, so one that ends a member here is the first of all
    cases hends : endsMember v allowWord with
    | true =>
      have hhere := (endsMemberAt_append_iff u v allowWord).mpr hends
      refine ⟨some u.size, if_pos rfl, fun close => ⟨?_, ?_⟩⟩
      · rintro heq
        obtain rfl := Option.some.inj heq
        refine ⟨List.mem_cons_self, hhere, ?_⟩
        intro o ho hlt
        rcases List.mem_cons.mp ho with rfl | ho
        · exact absurd hlt (Nat.lt_irrefl _)
        · exact absurd (hsorted.1 o ho) (by omega)
      · rintro ⟨hmem, -, hbefore⟩
        rcases List.mem_cons.mp hmem with rfl | hmem
        · rfl
        · exact absurd hhere (hbefore _ List.mem_cons_self (hsorted.1 close hmem))
    | false =>
      have hhere : ¬ EndsMemberAt (u ++ '}' :: v) allowWord u.size := by
        rw [endsMemberAt_append_iff, hends]
        exact Bool.false_ne_true
      refine ⟨r, by rw [if_neg Bool.false_ne_true, hr], fun close => ?_⟩
      rw [hfirst close]
      constructor
      · rintro ⟨hmem, hclose, hbefore⟩
        refine ⟨List.mem_cons_of_mem _ hmem, hclose, ?_⟩
        rw [List.forall_mem_cons]
        exact ⟨fun _ => hhere, hbefore⟩
      · rintro ⟨hmem, hclose, hbefore⟩
        rw [List.forall_mem_cons] at hbefore
        rcases List.mem_cons.mp hmem with rfl | hmem
        · exact absurd hclose hhere
        · exact ⟨hmem, hclose, hbefore.2⟩

/-! ## The end of a block -/

/-- An offset is the first one behind `start` at which something holds. -/
structure FirstBehind (P : Nat → Prop) (start offset : Nat) : Prop where
  behind : start < offset
  holds : P offset
  least : ∀ o, start < o → o < offset → ¬ P o

/-- A block that was opened at depth `depth` ends at an offset: at the first closing brace in code back at
that depth or, without any, at the first closing brace in code that ends a member. -/
inductive BlockEndsAt (t : Text) (allowWord : Bool) (start depth close : Nat) : Prop where
  | matching (first : FirstBehind (ClosesAt t · (depth + 1)) start close)
  | member (unclosed : ∀ o, start < o → ¬ ClosesAt t o (depth + 1))
      (first : FirstBehind (fun o => (∃ d, ClosesAt t o d) ∧ EndsMemberAt t allowWord o) start close)

theorem BlockEndsAt.behind {allowWord : Bool} {close : Nat} (h : BlockEndsAt t allowWord start depth close) :
    start < close := by
  cases h with
  | matching first => exact first.behind
  | member unclosed first => exact first.behind

theorem BlockEndsAt.exists_closesAt {allowWord : Bool} {close : Nat}
    (h : BlockEndsAt t allowWord start depth close) : ∃ d, ClosesAt t close d := by
  cases h with
  | matching first => exact ⟨_, first.holds⟩
  | member unclosed first => exact first.holds.1

/-- Up to the end of a block the depth stays above that of its opening brace, also where the end is a guess. -/
theorem BlockEndsAt.lt_depthAt {allowWord : Bool} {close : Nat} (h : BlockEndsAt t allowWord start depth close)
    (hopen : OpensAt t start depth) : ∀ o, start < o → o ≤ close → depth + 1 ≤ depthAt t o := by
  cases h with
  | matching first => exact hopen.lt_depthAt first.least
  | member unclosed first => exact hopen.lt_depthAt fun o hstart _ => unclosed o hstart

theorem OpensAt.not_closesAt_of_none (h : OpensAt t start depth) (hnone : matchingBrace? t start = none) :
    ∀ o, start < o → ¬ ClosesAt t o (depth + 1) := by
  intro o hlt hclose
  have hbound := hclose.lt_length
  have hdeep := h.matchingBrace?_eq_none_iff.mp hnone (o + 1) (by omega) (by omega)
  rw [hclose.depthAt_succ] at hdeep
  omega

theorem OpensAt.matchingBrace?_iff_firstBehind (h : OpensAt t start depth) (close : Nat) :
    matchingBrace? t start = some close ↔ FirstBehind (ClosesAt t · (depth + 1)) start close := by
  rw [h.matchingBrace?_eq_some_iff]
  exact ⟨fun ⟨hlt, hclose, hleast⟩ => ⟨hlt, hclose, hleast⟩, fun hf => ⟨hf.behind, hf.holds, hf.least⟩⟩

/-- **The end of a block**: the search for it never faults, and what it gives is the end of the block by
the scan of the whole text. -/
theorem OpensAt.blockEnd_eq (h : OpensAt t start depth) (allowWord : Bool) :
    ∃ r, blockEnd t start allowWord = .ok r ∧
      ∀ close, r = some close ↔ BlockEndsAt t allowWord start depth close := by
  cases hmatch : matchingBrace? t start with
  | some close =>
    refine ⟨some close, by rw [blockEnd, hmatch], fun close' => ?_⟩
    have hfirst := (h.matchingBrace?_iff_firstBehind close).mp hmatch
    rw [← hmatch]
    constructor
    · exact fun hclose' => .matching ((h.matchingBrace?_iff_firstBehind close').mp hclose')
    · rintro (hfirst' | ⟨hunclosed, -⟩)
      · exact (h.matchingBrace?_iff_firstBehind close').mpr hfirst'
      · exact absurd hfirst.holds (hunclosed close hfirst.behind)
  | none =>
    -- no brace closes the block, and the ends of members are tried in their order
    have hunclosed := h.not_closesAt_of_none hmatch
    obtain ⟨r, hr, hfirst⟩ := firstMemberEnd_eq t allowWord (closingBraces t (start + 1))
      (fun o ho => (h.mem_closingBraces_iff.mp ho).2.elim fun _ hd => hd.exists_split)
      (closingBraces_eq t (start + 1) ▸ pairwise_places Seen.closes _ _)
    refine ⟨r, by rw [blockEnd, hmatch]; exact hr, fun close => ?_⟩
    rw [hfirst close, h.mem_closingBraces_iff]
    constructor
    · rintro ⟨⟨hlt, hcloses⟩, hends, hbefore⟩
      refine .member hunclosed ⟨hlt, ⟨hcloses, hends⟩, ?_⟩
      rintro o hstart hbehind ⟨hcloses', hends'⟩
      exact hbefore o (h.mem_closingBraces_iff.mpr ⟨hstart, hcloses'⟩) hbehind hends'
    · rintro (hfirst' | ⟨-, hfirst'⟩)
      · exact absurd hfirst'.holds (hunclosed close hfirst'.behind)
      · refine ⟨⟨hfirst'.behind, hfirst'.holds.1⟩, hfirst'.holds.2, ?_⟩
        intro o ho hlt hends
        obtain ⟨hstart, hcloses⟩ := h.mem_closingBraces_iff.mp ho
        exact hfirst'.least o hstart hlt ⟨hcloses, hends⟩

end Block

end GoDraft
