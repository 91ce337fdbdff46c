import GoDraft.Body.StatementLines
import GoDraft.Body.Terminators
import GoDraft.Proofs.Scan.Comments
import GoDraft.Proofs.Text.Boundary
import GoDraft.Proofs.Text.Utf8

/-!
# GoDraft — recasting by byte offsets

A body is recast character by character, and what follows a character is at hand. The same steps can be told by byte
offsets: the rest of a text is then cut out of it behind an offset, and each cut could be a fault. None is. The offsets
of a walk through bytes lie between characters wherever a cut is made, because a byte that is a brace or a semicolon
is never part of another character.

* `startsKeywordAt` — a keyword at an offset;
* `cutTerminators` — a line without its terminators;
* `cutStatements` — the bytes of a body with each statement on a line of its own;
* `spots_keep_characters` — no character is broken.
-/

namespace GoDraft

/-! ## Keywords -/

/-- Whether a keyword begins at an offset of a text, as a name of its own. -/
def startsKeywordAt (t : Text) (offset : Nat) (word : Text) : Except Fault Bool := do
  let here ← t.slice offset t.size
  if !here.startsWith word then return false
  let front ← t.slice 0 offset
  if front.getLast?.any isNameChar then return false
  let behind ← t.slice (offset + word.size) t.size
  return !behind.head?.any isNameChar

/-- **Keywords by offset**: behind any front part of a text the test makes no fault. -/
theorem startsKeywordAt_append (u t word : Text) :
    startsKeywordAt (u ++ t) u.size word = .ok (startsKeyword u.getLast? t word) := by
  rw [startsKeywordAt, Text.slice_behind, Text.slice_front, startsKeyword]
  dsimp only [bind, Except.bind]
  cases hword : t.startsWith word with
  | false => rfl
  | true =>
    obtain ⟨w, rfl⟩ := List.isPrefixOf_iff_prefix.mp hword
    have hbehind : Text.slice (u ++ (word ++ w)) (u.size + word.size) (u ++ (word ++ w)).size = .ok w := by
      rw [← List.append_assoc, ← Text.size_append]
      exact Text.slice_behind _ _
    rw [hbehind, List.drop_left]
    cases hlast : u.getLast?.any isNameChar <;> simp [pure, Except.pure]

/-! ## Terminators -/

namespace Terminators

/-- The rest of a line without terminators, by the offset of that rest. -/
def cutWalk (st : Terminators) (line : Text) (offset : Nat) : Text → Except Fault Text
  | [] => .ok st.out.reverse
  | c :: rest =>
    let next := offset + c.utf8Size
    match st.quote with
    | some q => (st.inLiteral q c).cutWalk line next rest
    | none =>
      if st.skipping && isBlank c then st.cutWalk line next rest
      else if c = '"' ∨ c = '\'' then { st.push c with quote := some c }.cutWalk line next rest
      else if c = '/' then do
        let here ← line.slice offset line.size
        if here.startsWith "//" then return st.out.reverse ++ here
        else (st.push c).cutWalk line next rest
      else if c = 'f' then do
        let isFor ← startsKeywordAt line offset "for"
        ({ st.push c with forHeader := st.forHeader || isFor } : Terminators).cutWalk line next rest
      else if c = '{' then { st.push c with forHeader := false }.cutWalk line next rest
      else if c = ';' ∧ !st.forHeader then do
        let behind ← line.slice (offset + 1) line.size
        let ahead := behind.trimStart
        if ahead.isEmpty then return st.out.reverse
        else if ahead.startsWith "//" || ahead.head? == some ';' then st.cutWalk line next rest
        else
          ({ st with out := '\n' :: st.out.dropWhile isBlank, skipping := true } : Terminators).cutWalk line next rest
      else (st.push c).cutWalk line next rest

theorem startsWith_slashes (rest : Text) :
    Text.startsWith ('/' :: rest) "//" = decide (rest.head? = some '/') := by
  cases rest with
  | nil => rfl
  | cons d rest =>
    by_cases hd : d = '/'
    · simp [Text.startsWith, hd]
    · simp [Text.startsWith, List.isPrefixOf, hd, Ne.symm hd]

/-- The walk by offsets makes no fault and leaves the same text. -/
theorem cutWalk_append : ∀ (t u : Text) (st : Terminators),
    st.cutWalk (u ++ t) u.size t = .ok (st.walk u.getLast? t)
  | [], u, st => rfl
  | c :: rest, u, st => by
    -- the offset is the size of what has been walked through, with the character or without it
    have ih (st : Terminators) :
        st.cutWalk (u ++ c :: rest) (u.size + c.utf8Size) rest = .ok (st.walk (some c) rest) := by
      have hsize : u.size + c.utf8Size = (u ++ [c]).size := by
        rw [Text.size_append]
        rfl
      have hrest := cutWalk_append rest (u ++ [c]) st
      rwa [List.append_assoc, List.singleton_append, ← hsize, List.getLast?_concat] at hrest
    have hhere := Text.slice_behind u (c :: rest)
    rw [cutWalk, walk]
    dsimp only
    cases st.quote with
    | some q => exact ih _
    | none =>
      dsimp only
      by_cases hskip : (st.skipping && isBlank c) = true
      · rw [if_pos hskip, if_pos hskip]
        exact ih _
      rw [if_neg hskip, if_neg hskip]
      by_cases hquote : c = '"' ∨ c = '\''
      · rw [if_pos hquote, if_pos hquote]
        exact ih _
      rw [if_neg hquote, if_neg hquote]
      by_cases hslash : c = '/'
      · subst hslash
        rw [if_pos rfl, hhere]
        dsimp only [bind, Except.bind]
        rw [startsWith_slashes]
        by_cases hnext : rest.head? = some '/'
        · rw [if_pos (by simpa using hnext), if_pos ⟨rfl, hnext⟩]
          rfl
        · rw [if_neg (by simpa using hnext), if_neg (by simp [hnext]), ih]
          simp
      rw [if_neg hslash]
      conv_rhs => rw [if_neg (fun h => hslash h.1)]
      by_cases hf : c = 'f'
      · subst hf
        rw [if_pos rfl, startsKeywordAt_append]
        dsimp only [bind, Except.bind]
        rw [ih]
        cases startsKeyword u.getLast? ('f' :: rest) "for" <;> simp [push]
      rw [if_neg hf]
      conv_rhs => rw [if_neg (fun h => hf h.1)]
      by_cases hbrace : c = '{'
      · rw [if_pos hbrace, if_pos hbrace]
        exact ih _
      rw [if_neg hbrace, if_neg hbrace]
      by_cases hend : c = ';' ∧ (!st.forHeader) = true
      · rw [if_pos hend, if_pos hend]
        obtain rfl := hend.1
        have hbehind : Text.slice (u ++ ';' :: rest) (u.size + 1) (u ++ ';' :: rest).size = .ok rest := by
          have hslice := Text.slice_behind (u ++ [';']) rest
          rw [List.append_assoc, List.singleton_append, Text.size_append] at hslice
          exact hslice
        rw [hbehind]
        dsimp only [bind, Except.bind]
        split
        · rfl
        split
        · exact ih _
        · exact ih _
      · rw [if_neg hend, if_neg hend]
        exact ih _

end Terminators

/-- A line without its terminators, by offsets. -/
def cutTerminators (line : Text) : Except Fault Text := ({} : Terminators).cutWalk line 0 line

/-- **Terminators by offset**: no line is a fault. -/
theorem cutTerminators_eq (line : Text) : cutTerminators line = .ok (dropTerminators line) :=
  Terminators.cutWalk_append line [] {}

/-! ## Bytes as characters -/

/-- The character with the number of a byte. -/
def byteChar (b : UInt8) : Char := Char.ofNat b.toNat

theorem toNat_byteChar (b : UInt8) : (byteChar b).toNat = b.toNat := by
  have hlt := b.toNat_lt
  have hvalid : b.toNat.isValidChar := .inl (by omega)
  rw [byteChar, Char.ofNat, dif_pos hvalid]
  rfl

/-- An ASCII character is one byte with its number. -/
theorem encode_of_ascii {c : Char} (h : c.toNat < 128) : ∃ b, String.utf8EncodeChar c = [b] ∧ byteChar b = c := by
  refine ⟨UInt8.ofNat c.toNat, ?_, ?_⟩
  · have hval : c.val.toNat ≤ 0x7f := Nat.le_of_lt_succ h
    rw [String.utf8EncodeChar, if_pos hval]
    rfl
  · rw [byteChar, UInt8.toNat_ofNat', Nat.mod_eq_of_lt (by omega), Char.ofNat_toNat]

/-- The bytes of any other character are no ASCII characters. -/
theorem le_of_mem_encode {c : Char} (h : 128 ≤ c.toNat) {b : UInt8} (hb : b ∈ String.utf8EncodeChar c) :
    128 ≤ b.toNat := by
  have hval : ¬ c.val.toNat ≤ 0x7f := by
    have hc : c.toNat = c.val.toNat := rfl
    omega
  unfold String.utf8EncodeChar at hb
  dsimp only at hb
  rw [if_neg hval] at hb
  split at hb
  · simp only [List.mem_cons, List.not_mem_nil, or_false] at hb
    rcases hb with rfl | rfl <;> simp <;> omega
  · split at hb
    · simp only [List.mem_cons, List.not_mem_nil, or_false] at hb
      rcases hb with rfl | rfl | rfl <;> simp <;> omega
    · simp only [List.mem_cons, List.not_mem_nil, or_false] at hb
      rcases hb with rfl | rfl | rfl | rfl <;> simp <;> omega

/-- Whether a character is no ASCII character. -/
def IsHigh (c : Char) : Prop := 128 ≤ c.toNat

namespace IsHigh

variable {c d : Char}

theorem ne (h : IsHigh c) (hd : d.toNat < 128) : c ≠ d := by
  rintro rfl
  exact absurd hd (Nat.not_lt.mpr h)

theorem isGap (h : IsHigh c) : GoDraft.isGap c = false := by
  rw [GoDraft.isGap, beq_false_of_ne (h.ne (by decide)), beq_false_of_ne (h.ne (by decide))]
  rfl

theorem isPlainBlank (h : IsHigh c) : GoDraft.isPlainBlank c = false := by
  simp only [GoDraft.isPlainBlank, Bool.or_eq_false_iff, beq_eq_false_iff_ne]
  exact ⟨⟨⟨⟨h.ne (by decide), h.ne (by decide)⟩, h.ne (by decide)⟩, h.ne (by decide)⟩, h.ne (by decide)⟩

end IsHigh

/-- The characters of the bytes of a character, last one first. -/
def byteChars (c : Char) : Text := ((String.utf8EncodeChar c).map byteChar).reverse

theorem byteChars_of_ascii {c : Char} (h : c.toNat < 128) : byteChars c = [c] := by
  obtain ⟨b, hb, hc⟩ := encode_of_ascii h
  rw [byteChars, hb, List.map_singleton, hc]
  rfl

theorem isHigh_of_mem_byteChars {c : Char} (h : IsHigh c) : ∀ d ∈ byteChars c, IsHigh d := by
  intro d hd
  obtain ⟨b, hb, rfl⟩ := List.mem_map.mp (List.mem_reverse.mp hd)
  rw [IsHigh, toNat_byteChar]
  exact le_of_mem_encode h hb

theorem exists_byteChars (c : Char) : ∃ d ds, byteChars c = d :: ds := by
  apply List.exists_cons_of_ne_nil
  intro hnil
  have hlength : (byteChars c).length = c.utf8Size := by
    rw [byteChars, List.length_reverse, List.length_map, String.length_utf8EncodeChar]
  rw [hnil] at hlength
  exact absurd hlength.symm (Nat.ne_of_gt c.utf8Size_pos)

/-! ## Statements on lines -/

/-- What has been written, last one first, byte by byte. -/
def byteOut (out : Text) : Text := out.flatMap byteChars

theorem byteOut_cons (c : Char) (out : Text) : byteOut (c :: out) = byteChars c ++ byteOut out := List.flatMap_cons

theorem byteOut_ascii {c : Char} (h : c.toNat < 128) (out : Text) : byteOut (c :: out) = c :: byteOut out := by
  rw [byteOut_cons, byteChars_of_ascii h]
  rfl

/-- The last byte written is the last character, or neither of them is an ASCII character. -/
theorem byteOut_cons_cases (c : Char) (out : Text) :
    byteOut (c :: out) = c :: byteOut out ∨ IsHigh c ∧ ∃ d ds, IsHigh d ∧ byteOut (c :: out) = d :: ds := by
  rcases Nat.lt_or_ge c.toNat 128 with hc | hc
  · exact .inl (byteOut_ascii hc out)
  · obtain ⟨d, ds, hds⟩ := exists_byteChars c
    have hd : IsHigh d := isHigh_of_mem_byteChars hc d (by rw [hds]; exact List.mem_cons_self)
    exact .inr ⟨hc, d, ds ++ byteOut out, hd, by rw [byteOut_cons, hds, List.cons_append]⟩

theorem opensBlock_byteOut (out : Text) : opensBlock (byteOut out) = opensBlock out := by
  have hfind : (byteOut out).find? (fun c => !isPlainBlank c) = out.find? (fun c => !isPlainBlank c) ∨
      ∃ c d, (byteOut out).find? (fun c => !isPlainBlank c) = some c ∧
        out.find? (fun c => !isPlainBlank c) = some d ∧ IsHigh c ∧ IsHigh d := by
    induction out with
    | nil => exact .inl rfl
    | cons c out ih =>
      rcases byteOut_cons_cases c out with hout | ⟨hc, d, ds, hd, hout⟩
      · rw [hout, List.find?_cons, List.find?_cons]
        cases !isPlainBlank c with
        | true => exact .inl rfl
        | false => exact ih
      · rw [hout, List.find?_cons_of_pos (by rw [hd.isPlainBlank]; rfl),
          List.find?_cons_of_pos (by rw [hc.isPlainBlank]; rfl)]
        exact .inr ⟨d, c, rfl, rfl, hd, hc⟩
  have hhigh : ∀ c, IsHigh c → ['=', ']', ',', '('].elem c = false := by
    intro c hc
    simp [hc.ne (d := '=') (by decide), hc.ne (d := ']') (by decide), hc.ne (d := ',') (by decide),
      hc.ne (d := '(') (by decide)]
  rw [opensBlock, opensBlock]
  rcases hfind with hfind | ⟨c, d, hc, hd, hhc, hhd⟩
  · rw [hfind]
  · rw [hc, hd, Option.any_some, Option.any_some, hhigh c hhc, hhigh d hhd]

theorem lineIsBlank_byteOut (out : Text) : lineIsBlank (byteOut out) = lineIsBlank out := by
  induction out with
  | nil => rfl
  | cons c out ih =>
    rw [lineIsBlank, lineIsBlank] at ih ⊢
    rcases byteOut_cons_cases c out with hout | ⟨hc, d, ds, hd, hout⟩
    · rw [hout, List.takeWhile_cons, List.takeWhile_cons]
      split
      · rw [List.all_cons, List.all_cons, ih]
      · rfl
    · rw [hout, List.takeWhile_cons_of_pos (by simp [hd.ne (d := '\n') (by decide)]),
        List.takeWhile_cons_of_pos (by simp [hc.ne (d := '\n') (by decide)]), List.all_cons, List.all_cons,
        hd.isPlainBlank, hc.isPlainBlank]
      rfl

theorem dropWhile_byteOut (out : Text) : (byteOut out).dropWhile isGap = byteOut (out.dropWhile isGap) := by
  induction out with
  | nil => rfl
  | cons c out ih =>
    rcases byteOut_cons_cases c out with hout | ⟨hc, d, ds, hd, hout⟩
    · rw [hout, List.dropWhile_cons, List.dropWhile_cons]
      split
      · exact ih
      · rw [hout]
    · rw [List.dropWhile_cons_of_neg (by simp [hc.isGap]), hout, List.dropWhile_cons_of_neg (by simp [hd.isGap])]

namespace StatementLines

/-- Takes one byte of the body, by its offset. What follows it is cut out of the body where it counts. -/
def cutFeed (body : Text) (st : StatementLines) (offset : Nat) (b : UInt8) (z : Zone) : Except Fault StatementLines :=
  let c := byteChar b
  if st.pending && isGap c then .ok st
  else
    let st := st.settle c
    if !z.isCode then .ok (st.push c)
    else if c = ';' ∨ c = '{' ∨ c = '}' then do
      let rest ← body.slice (offset + 1) body.size
      return (st.code c rest).push c
    else .ok ((st.code c []).push c)

/-- The same with what has been written byte by byte. -/
def inBytes (st : StatementLines) : StatementLines := { st with out := byteOut st.out }

variable (st : StatementLines)

theorem inBytes_push {c : Char} (hc : c.toNat < 128) : (st.push c).inBytes = st.inBytes.push c := by
  rw [inBytes, push, byteOut_ascii hc]
  rfl

theorem inBytes_settle (c : Char) : (st.settle c).inBytes = st.inBytes.settle c := by
  unfold settle inBytes
  split
  · rfl
  split
  · rfl
  · rw [byteOut_ascii (by decide)]

theorem inBytes_openBrace (rest : Text) : (st.openBrace rest).inBytes = st.inBytes.openBrace rest := by
  have hopens : opensBlock st.inBytes.out = opensBlock st.out := opensBlock_byteOut st.out
  unfold openBrace
  dsimp only
  rw [hopens]
  show inBytes (if (_ && _) = true then _ else _) = if (st.braces.head?.all (·.isBlock) && _) = true then _ else _
  split <;> rfl

theorem inBytes_freshLine : st.freshLine.inBytes = st.inBytes.freshLine := by
  have hblank : lineIsBlank st.inBytes.out = lineIsBlank st.out := lineIsBlank_byteOut st.out
  have hgaps : st.inBytes.out.dropWhile isGap = byteOut (st.out.dropWhile isGap) := dropWhile_byteOut st.out
  unfold freshLine
  rw [hblank, hgaps]
  split
  · rfl
  · rw [inBytes, byteOut_ascii (by decide)]
    rfl

theorem inBytes_closeBrace (rest : Text) : (st.closeBrace rest).inBytes = st.inBytes.closeBrace rest := by
  have hfresh := inBytes_freshLine { st with braces := st.braces.tail }
  unfold closeBrace
  dsimp only
  show inBytes (if (st.braces.head?.getD ⟨true, 0⟩).isBlock = true then _ else _) =
    if (st.braces.head?.getD ⟨true, 0⟩).isBlock = true then _ else _
  split
  · exact congrArg (fun s : StatementLines => { s with
      parens := (st.braces.head?.getD ⟨true, 0⟩).parens, pending := breaksAfter rest && !continuesBlock rest }) hfresh
  · rfl

theorem inBytes_code (c : Char) (rest : Text) : (st.code c rest).inBytes = st.inBytes.code c rest := by
  unfold code
  split
  · rfl
  · rfl
  · show inBytes _ = if st.parens = 0 then _ else _
    split <;> rfl
  · exact st.inBytes_openBrace rest
  · exact st.inBytes_closeBrace rest
  · rfl

/-- What follows a character counts for three of them only. -/
theorem code_of_ne {c : Char} (hc : ¬ (c = ';' ∨ c = '{' ∨ c = '}')) (rest rest' : Text) :
    st.code c rest = st.code c rest' := by
  unfold code
  split
  · rfl
  · rfl
  · exact absurd (.inl rfl) hc
  · exact absurd (.inr (.inl rfl)) hc
  · exact absurd (.inr (.inr rfl)) hc
  · rfl

theorem code_of_isHigh {c : Char} (hc : IsHigh c) (rest : Text) : st.code c rest = st := by
  unfold code
  split
  all_goals first | rfl | exact absurd rfl (hc.ne (by decide))

theorem settle_of_isHigh {c : Char} (hc : IsHigh c) :
    st.settle c = if !st.pending then st else { st with pending := false, out := '\n' :: st.out } := by
  have hend : ¬ (c == '\n' || c == '\r') = true := by
    simp [hc.ne (d := '\n') (by decide), hc.ne (d := '\r') (by decide)]
  rw [settle, if_neg hend]

section Feed

variable {body : Text} {offset : Nat} {b : UInt8} {c : Char} (z : Zone)

/-- An ASCII character is one byte, and what follows it is cut out behind that byte. -/
theorem cutFeed_ascii (hc : c.toNat < 128) (hb : byteChar b = c) {rest : List (Seen Char)}
    (hrest : body.slice (offset + 1) body.size = .ok (rest.map Seen.letter)) (depth : Nat) :
    st.inBytes.cutFeed body offset b z = .ok (st.feed ⟨c, z, depth⟩ rest).inBytes := by
  have hpending : st.inBytes.pending = st.pending := rfl
  unfold cutFeed feed
  dsimp only
  rw [hb, hpending, ← inBytes_settle]
  split
  · rfl
  cases z.isCode with
  | false => exact congrArg Except.ok (inBytes_push _ hc).symm
  | true =>
    rw [if_neg (by decide), if_pos rfl, inBytes_push _ hc, inBytes_code]
    split
    · rw [hrest]
      rfl
    · rename_i hc
      rw [code_of_ne _ hc [] (rest.map Seen.letter)]

theorem cutFeed_high (hb : IsHigh (byteChar b)) :
    st.cutFeed body offset b z = .ok ((st.settle (byteChar b)).push (byteChar b)) := by
  have hcut : ¬ (byteChar b = ';' ∨ byteChar b = '{' ∨ byteChar b = '}') := by
    rintro (h | h | h) <;> exact hb.ne (by decide) h
  unfold cutFeed
  dsimp only
  rw [hb.isGap, Bool.and_false, if_neg Bool.false_ne_true, if_neg hcut, code_of_isHigh _ hb]
  split <;> rfl

/-- Further bytes of a character are copied. -/
theorem cutFeeds_high {bs : List UInt8} (hbs : ∀ b ∈ bs, IsHigh (byteChar b)) (hst : st.pending = false) :
    ((bs.map fun b => (b, z)).zipIdx offset).foldlM (fun st x => st.cutFeed body x.2 x.1.1 x.1.2) st =
      .ok { st with out := (bs.map byteChar).reverse ++ st.out } := by
  induction bs generalizing st offset with
  | nil => rfl
  | cons b bs ih =>
    rw [List.forall_mem_cons] at hbs
    have hfirst : st.cutFeed body offset b z = .ok (st.push (byteChar b)) := by
      rw [cutFeed_high st z hbs.1, settle_of_isHigh st hbs.1, hst]
      rfl
    rw [List.map_cons, List.zipIdx_cons, List.foldlM_cons, hfirst]
    refine (ih (st.push (byteChar b)) hbs.2 hst).trans ?_
    simp [push]

/-- The bytes of a character are taken as the character is. -/
theorem cutFeeds_char {u : Text} {rest : List (Seen Char)} (depth : Nat)
    (hbody : body = u ++ c :: rest.map Seen.letter) :
    ((encodeZoned (c, z)).zipIdx u.size).foldlM (fun st x => st.cutFeed body x.2 x.1.1 x.1.2) st.inBytes =
      .ok (st.feed ⟨c, z, depth⟩ rest).inBytes := by
  rw [encodeZoned]
  rcases Nat.lt_or_ge c.toNat 128 with hc | hc
  · obtain ⟨b, hbytes, hb⟩ := encode_of_ascii hc
    -- the offset behind one byte lies between characters, so the cut is no fault
    have hrest : body.slice (u.size + 1) body.size = .ok (rest.map Seen.letter) := by
      have hsize : (u ++ [c]).size = u.size + 1 := by
        rw [Text.size_append, Text.size_cons, ← String.length_utf8EncodeChar, hbytes]
        rfl
      have hslice := Text.slice_behind (u ++ [c]) (rest.map Seen.letter)
      rwa [List.append_assoc, List.singleton_append, ← hbody, hsize] at hslice
    rw [hbytes, List.map_singleton, List.zipIdx_singleton, List.foldlM_cons, cutFeed_ascii st z hc hb hrest depth]
    rfl
  · -- the first byte settles the end of a line, the others are copied behind it
    have hc : IsHigh c := hc
    have hbytes : ∀ b ∈ String.utf8EncodeChar c, IsHigh (byteChar b) := by
      intro b hb
      rw [IsHigh, toNat_byteChar]
      exact le_of_mem_encode hc hb
    have hfeed : st.feed ⟨c, z, depth⟩ rest = (st.settle c).push c := by
      unfold feed
      dsimp only
      rw [hc.isGap, Bool.and_false, if_neg Bool.false_ne_true, code_of_isHigh _ hc]
      split <;> rfl
    obtain ⟨d, ds, hds⟩ := exists_byteChars c
    obtain ⟨b, bs, hbs⟩ : ∃ b bs, String.utf8EncodeChar c = b :: bs := by
      apply List.exists_cons_of_ne_nil
      intro hnil
      rw [byteChars, hnil] at hds
      cases hds
    rw [hbs, List.forall_mem_cons] at hbytes
    have hsettle : st.inBytes.settle (byteChar b) = (st.settle c).inBytes := by
      rw [inBytes_settle, settle_of_isHigh _ hbytes.1, settle_of_isHigh _ hc]
    have hpending : (st.settle c).pending = false := by
      rw [settle_of_isHigh _ hc]
      cases hp : st.pending <;> simp [hp]
    rw [hbs, List.map_cons, List.zipIdx_cons, List.foldlM_cons, cutFeed_high _ z hbytes.1, hsettle, hfeed]
    refine (cutFeeds_high ((st.settle c).inBytes.push (byteChar b)) z hbytes.2 hpending).trans ?_
    simp [push, inBytes, byteOut_cons, byteChars, hbs]

end Feed

/-- **A walk by bytes** takes the bytes of some characters as the characters are taken. -/
theorem cutFeeds_run {body : Text} : ∀ (xs : List (Seen Char)) (u : Text) (st : StatementLines),
    body = u ++ xs.map Seen.letter →
      ((xs.flatMap fun x => encodeZoned (x.letter, x.zone)).zipIdx u.size).foldlM
          (fun st x => st.cutFeed body x.2 x.1.1 x.1.2) st.inBytes = .ok (st.run xs).inBytes
  | [], u, st, _ => rfl
  | x :: xs, u, st, hbody => by
    have hsize : u.size + (encodeZoned (x.letter, x.zone)).length = (u ++ [x.letter]).size := by
      rw [encodeZoned, List.length_map, String.length_utf8EncodeChar, Text.size_append]
      rfl
    rw [List.flatMap_cons, List.zipIdx_append, List.foldlM_append, cutFeeds_char st x.zone x.depth hbody, hsize]
    exact cutFeeds_run xs (u ++ [x.letter]) (st.feed x xs) (by simp [hbody])

end StatementLines

/-- The bytes of a body with each statement on a line of its own, by a walk through the bytes of the body. -/
def cutStatements (body : Text) : Except Fault (List UInt8) := do
  let st ← (Walker.startingAt body.bytes 0).spots.foldlM
    (fun st s => StatementLines.cutFeed body st s.offset s.byte s.zone) {}
  return st.out.reverse.map fun c => UInt8.ofNat c.toNat

theorem spots_eq_zipIdx (body : Text) :
    (Walker.startingAt body.bytes 0).spots.map (fun s => ((s.byte, s.zone), s.offset)) =
      ((scan body).flatMap fun x => encodeZoned (x.letter, x.zone)).zipIdx := by
  have hzoned : ((scan body).flatMap fun x => encodeZoned (x.letter, x.zone)) = zoned body.bytes := by
    rw [zoned_bytes, ← map_letter_zone_scan, List.flatMap_map]
  rw [hzoned, spots_startingAt_zero, lexedSpots]
  apply List.ext_getElem?
  intro i
  rw [List.getElem?_map, List.getElem?_mapIdx, List.getElem?_zipIdx, Option.map_map, Nat.zero_add]
  rfl

theorem bytes_byteOut (out : Text) :
    ((byteOut out).reverse.map fun c => UInt8.ofNat c.toNat) = Text.bytes out.reverse := by
  have hbyte : ∀ b : UInt8, UInt8.ofNat (byteChar b).toNat = b := fun b => by rw [toNat_byteChar, UInt8.ofNat_toNat]
  induction out with
  | nil => rfl
  | cons c out ih =>
    rw [byteOut_cons, List.reverse_append, List.map_append, ih, List.reverse_cons, Text.bytes_append, byteChars,
      List.reverse_reverse, List.map_map]
    simp [Text.bytes, Function.comp_def, hbyte]

/-- **Statements by offset**: no body is a fault, and the bytes written are those of the split body. -/
theorem cutStatements_eq (body : Text) : cutStatements body = .ok (Text.bytes (splitStatements body)) := by
  have hbody : body = [] ++ (scan body).map Seen.letter := by rw [map_letter_scan, List.nil_append]
  have hrun := StatementLines.cutFeeds_run (scan body) [] {} hbody
  rw [Text.size_nil, ← spots_eq_zipIdx, List.foldlM_map] at hrun
  have hstart : ({} : StatementLines).inBytes = {} := rfl
  rw [hstart] at hrun
  rw [cutStatements, hrun, splitStatements, ← bytes_byteOut]
  rfl

/-! ## Whole characters -/

theorem map_byte_filter_spots (t : Text) :
    ((Walker.startingAt t.bytes 0).spots.filter fun s => !s.zone.isComment).map Spot.byte =
      Text.bytes (stripComments t) := by
  rw [← stripComments_bytes, stripComments, ← map_seen_spots, List.filter_map, List.map_map]
  rfl

theorem map_byte_zone_spots (t : Text) :
    (Walker.startingAt t.bytes 0).spots.map (fun s => (s.byte, s.zone)) = (zoned t).flatMap encodeZoned := by
  rw [← zoned_bytes, ← map_letter_zone_scan, ← map_seen_spots, List.map_map]
  rfl

theorem zip_map_zone_scan (t : Text) : t.zip ((scan t).map Seen.zone) = zoned t := by
  calc t.zip ((scan t).map Seen.zone)
      = ((scan t).map Seen.letter).zip ((scan t).map Seen.zone) := by rw [map_letter_scan]
    _ = (scan t).map fun x => (x.letter, x.zone) := List.zip_map'
    _ = zoned t := map_letter_zone_scan t

/-- **Characters stay whole**: a walk by bytes finds all bytes of a character in one zone, and what it keeps outside
comments or writes for statements are the bytes of a text, so nothing is lost where they are read as one. -/
theorem spots_keep_characters (t : Text) :
    (∃ zones : List Zone, zones.length = t.length ∧
      (Walker.startingAt t.bytes 0).spots.map (fun s => (s.byte, s.zone)) =
        (t.zip zones).flatMap fun x => (String.utf8EncodeChar x.1).map fun b => (b, x.2)) ∧
      Text.ofBytes? (((Walker.startingAt t.bytes 0).spots.filter fun s => !s.zone.isComment).map Spot.byte) =
        some (stripComments t) ∧
      ∃ out, cutStatements t = .ok out ∧ Text.ofBytes? out = some (splitStatements t) := by
  refine ⟨⟨(scan t).map Seen.zone, ?_, ?_⟩, ?_, Text.bytes (splitStatements t), cutStatements_eq t, ?_⟩
  · rw [List.length_map, ← List.length_map (f := Seen.letter), map_letter_scan]
  · rw [zip_map_zone_scan, map_byte_zone_spots]
    rfl
  · rw [map_byte_filter_spots, Text.ofBytes?_bytes]
  · exact Text.ofBytes?_bytes _

end GoDraft
