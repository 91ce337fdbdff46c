import GoDraft.Proofs.Scan.Lines

/-!
# GoDraft — stripping comments

Without its comments a text has the lexemes it had before, less the comments. Taking a comment out brings
the letters around it together, but no two of them make a lexeme of another kind: a slash that is code never
stands before a comment, and a literal ends at its delimiter or before a line feed, which stays.

* `stripComments_cons` — stripping lexeme by lexeme;
* `lexemeFrom_seam` — a lexeme is the same before another rest, where the seam allows no mistake;
* `lex_stripComments` — the lexemes of a stripped text;
* `scan_stripComments` — its scan, with zones and depths;
* `stripComments_bytes` — stripping by characters and by bytes;
* `spots_stripComments` — all of it for a walk by byte offset.
-/

namespace GoDraft

variable {α : Type} [Marked α]

/-! ## Stripping by lexemes -/

theorem map_letter_zone_scan (letters : List α) :
    (scan letters).map (fun x => (x.letter, x.zone)) = zoned letters :=
  Scanner.zones_eq_zoned ⟨rfl, rfl⟩ letters

theorem stripComments_eq (letters : List α) :
    stripComments letters = ((zoned letters).filter fun x => !x.2.isComment).map Prod.fst := by
  rw [← map_letter_zone_scan, List.filter_map, List.map_map]
  rfl

theorem stripComments_nil : stripComments ([] : List α) = [] := rfl

/-- The first lexeme goes if it is a comment, and stays as it is if not. -/
theorem stripComments_cons (a : α) (rest : List α) :
    stripComments (a :: rest) =
      (if (lexemeFrom a rest).1.isComment then [] else a :: (lexemeFrom a rest).2) ++
        stripComments (rest.drop (lexemeFrom a rest).2.length) := by
  generalize hz : (lexemeFrom a rest).1 = z
  generalize ht : (lexemeFrom a rest).2 = taken
  rw [stripComments_eq, zoned_cons, hz, ht, List.filter_append, List.map_append, ← stripComments_eq,
    List.filter_map, List.map_map]
  congr 1
  cases hzone : z.isComment <;> simp [Function.comp_def, hzone]

/-! ## Seams -/

section Literal

variable {q : Quote} {a : α}

theorem literalRest_of_newline (h : Marked.mark a = .newline) (rest : List α) :
    literalRest q (a :: rest) = [] := by
  cases rest <;> simp [literalRest, h]

theorem literalRest_of_quote (h : Marked.mark a = .quote q) (rest : List α) :
    literalRest q (a :: rest) = [a] := by
  cases rest <;> simp [literalRest, h]

theorem literalRest_of_plain (hback : Marked.mark a ≠ .backslash) (hnewline : Marked.mark a ≠ .newline)
    (hquote : Marked.mark a ≠ .quote q) (rest : List α) :
    literalRest q (a :: rest) = a :: literalRest q rest := by
  cases rest <;> simp [literalRest, hback, hnewline, hquote]

end Literal

/-- What stands behind a lexeme begins with the same letter as before, or a comment could begin there
before. -/
def Seam (before after : List α) : Prop :=
  before.head? = after.head? ∨ ∃ a, before.head? = some a ∧ Marked.mark a = .slash

theorem Seam.eq_nil {after : List α} (h : Seam [] after) : after = [] := by
  rcases h with h | ⟨a, ha, -⟩
  · exact List.head?_eq_none_iff.mp h.symm
  · cases ha

theorem Seam.exists_cons {a : α} {before after : List α} (ha : Marked.mark a ≠ .slash)
    (h : Seam (a :: before) after) : ∃ after', after = a :: after' := by
  rcases h with h | ⟨b, hb, hslash⟩
  · exact List.head?_eq_some_iff.mp h.symm
  · rw [List.head?_cons, Option.some.injEq] at hb
    rw [hb] at ha
    exact absurd hslash ha

/-- A literal does not hang on what stands behind it, but for a line feed or the end of the text. -/
theorem literalRest_seam (q : Quote) : ∀ {letters after : List α},
    Seam (letters.drop (literalRest q letters).length) after →
      literalRest q (literalRest q letters ++ after) = literalRest q letters
  | [], after, h => by
    rw [Seam.eq_nil h]
    rfl
  | a :: rest, after, h => by
    -- on the literal, in the order in which its characters are tested
    by_cases hnewline : Marked.mark a = .newline
    · rw [literalRest_of_newline hnewline] at h ⊢
      obtain ⟨after', rfl⟩ := Seam.exists_cons (by rw [hnewline]; decide) h
      exact literalRest_of_newline hnewline after'
    by_cases hquote : Marked.mark a = .quote q
    · rw [literalRest_of_quote hquote]
      exact literalRest_of_quote hquote after
    by_cases hback : Marked.mark a = .backslash
    · cases rest with
      | nil =>
        have hall : literalRest q [a] = [a] := by simp [literalRest, hnewline]
        rw [hall] at h ⊢
        rw [Seam.eq_nil h]
        exact hall
      | cons b rest =>
        have htake : ∀ rest, literalRest q (a :: b :: rest) = a :: b :: literalRest q rest := by
          intro rest
          simp [literalRest, hback]
        rw [htake] at h ⊢
        rw [List.cons_append, List.cons_append, htake, literalRest_seam q h]
    · rw [literalRest_of_plain hback hnewline hquote] at h ⊢
      rw [List.cons_append, literalRest_of_plain hback hnewline hquote, literalRest_seam q h]

/-- A lexeme that is no comment stays the same where the rest behind it changes at a seam. -/
theorem lexemeFrom_seam {a : α} {rest after : List α} (hkept : (lexemeFrom a rest).1.isComment = false)
    (h : Seam (rest.drop (lexemeFrom a rest).2.length) after) :
    lexemeFrom a ((lexemeFrom a rest).2 ++ after) = lexemeFrom a rest := by
  unfold lexemeFrom at hkept h ⊢
  cases ha : Marked.mark a with
  | quote q =>
    simp only [ha] at h ⊢
    rw [literalRest_seam q h]
  | slash =>
    simp only [ha] at hkept h ⊢
    cases rest with
    | nil =>
      rw [Seam.eq_nil h]
      rfl
    | cons b rest =>
      -- a slash that is code: what follows is neither a slash nor a star, so it stays
      cases hb : Marked.mark b with
      | slash => simp [hb, Zone.isComment] at hkept
      | star => simp [hb, Zone.isComment] at hkept
      | _ =>
        simp only [hb] at h ⊢
        obtain ⟨after', rfl⟩ := Seam.exists_cons (by simp [hb]) h
        simp [hb]
  | _ => rfl

theorem isComment_lexemeFrom {a : α} {rest : List α} (h : (lexemeFrom a rest).1.isComment = true) :
    Marked.mark a = .slash := by
  unfold lexemeFrom at h
  cases ha : Marked.mark a with
  | slash => rfl
  | _ => simp [ha, Zone.isComment] at h

/-- Stripping changes the first letter only where a comment begins. -/
theorem seam_stripComments : ∀ letters : List α, Seam letters (stripComments letters)
  | [] => .inl rfl
  | a :: rest => by
    cases hz : (lexemeFrom a rest).1.isComment with
    | true => exact .inr ⟨a, rfl, isComment_lexemeFrom hz⟩
    | false =>
      left
      rw [stripComments_cons, hz]
      rfl

/-! ## The scan of a stripped text -/

/-- **Lexemes of a stripped text**: those of the text that are no comments. -/
theorem lex_stripComments : ∀ letters : List α,
    lex (stripComments letters) = (lex letters).filter fun u => !u.zone.isComment
  | [] => by
    rw [stripComments_nil, lex]
    rfl
  | a :: rest => by
    have hrest := lex_stripComments (rest.drop (lexemeFrom a rest).2.length)
    rw [stripComments_cons, lex]
    cases hz : (lexemeFrom a rest).1.isComment with
    | true =>
      rw [if_pos rfl, List.nil_append, List.filter_cons_of_neg (by simp [hz]), hrest]
    | false =>
      rw [if_neg Bool.false_ne_true, List.cons_append, lex,
        lexemeFrom_seam hz (seam_stripComments _), List.drop_left, hrest,
        List.filter_cons_of_pos (by simp [hz])]
termination_by letters => letters.length

theorem zoned_stripComments (letters : List α) :
    zoned (stripComments letters) = (zoned letters).filter fun x => !x.2.isComment := by
  rw [zoned, lex_stripComments, zoned, List.filter_flatMap]
  induction lex letters with
  | nil => rfl
  | cons u us ih =>
    rw [List.flatMap_cons, ← ih]
    cases hz : u.zone.isComment <;> simp [hz, List.filter_map, Function.comp_def]

theorem depthAfter_of_isComment {z : Zone} (h : z.isComment = true) (depth : Nat) (a : α) :
    depthAfter depth (a, z) = depth := by
  cases z with
  | lineComment => rfl
  | blockComment => rfl
  | _ => cases h

/-- Comments do not change the depth, so the depths of the other letters are told without them. -/
theorem counted_filter (depth : Nat) (xs : List (α × Zone)) :
    counted depth (xs.filter fun x => !x.2.isComment) =
      (counted depth xs).filter fun x => !x.zone.isComment := by
  induction xs generalizing depth with
  | nil => rfl
  | cons x xs ih =>
    obtain ⟨a, z⟩ := x
    cases hz : z.isComment with
    | true =>
      rw [List.filter_cons_of_neg (by simp [hz]), counted, depthAfter_of_isComment hz, ih,
        List.filter_cons_of_neg (by simp [hz])]
    | false =>
      rw [List.filter_cons_of_pos (by simp [hz]), counted, counted, ih,
        List.filter_cons_of_pos (by simp [hz])]

theorem scan_stripComments (letters : List α) :
    scan (stripComments letters) = (scan letters).filter fun x => !x.zone.isComment := by
  rw [scan_eq_counted, zoned_stripComments, counted_filter, ← scan_eq_counted]

theorem openBraces_filter (depth : Nat) (xs : List (α × Zone)) :
    openBraces depth (xs.filter fun x => !x.2.isComment) = openBraces depth xs := by
  induction xs generalizing depth with
  | nil => rfl
  | cons x xs ih =>
    obtain ⟨a, z⟩ := x
    cases hz : z.isComment with
    | true =>
      rw [List.filter_cons_of_neg (by simp [hz]), ih, openBraces, openBraces, List.foldl_cons,
        depthAfter_of_isComment hz]
    | false =>
      rw [List.filter_cons_of_pos (by simp [hz])]
      exact ih (depthAfter depth (a, z))

/-! ## Characters and bytes -/

/-- The bytes of a character, each with the zone of the character. -/
def encodeZoned (x : Char × Zone) : List (UInt8 × Zone) :=
  (String.utf8EncodeChar x.1).map fun b => (b, x.2)

/-- A character with a mark is one byte with that mark. -/
theorem encode_of_marked {c : Char} (h : (Marked.mark c : Mark) ≠ .plain) :
    ∃ b, String.utf8EncodeChar c = [b] ∧ (Marked.mark b : Mark) = Marked.mark c := by
  have hlow : c.toNat < 128 := by
    by_contra hhigh
    apply h
    show Mark.ofCode c.toNat = .plain
    rw [Mark.ofCode]
    repeat rw [if_neg (by omega)]
  refine ⟨UInt8.ofNat c.toNat, ?_, ?_⟩
  · have hval : c.val.toNat ≤ 0x7f := Nat.le_of_lt_succ hlow
    rw [String.utf8EncodeChar, if_pos hval]
    rfl
  · show Mark.ofCode (UInt8.ofNat c.toNat).toNat = Mark.ofCode c.toNat
    rw [UInt8.toNat_ofNat', Nat.mod_eq_of_lt (by omega)]

theorem encode_of_plain {c : Char} (h : (Marked.mark c : Mark) = .plain) :
    ∃ b bs, String.utf8EncodeChar c = b :: bs ∧ ∀ x ∈ b :: bs, (Marked.mark x : Mark) = .plain := by
  have hlength : 0 < (String.utf8EncodeChar c).length := by
    rw [String.length_utf8EncodeChar]
    exact c.utf8Size_pos
  obtain ⟨b, bs, hbytes⟩ := List.exists_cons_of_length_pos hlength
  refine ⟨b, bs, hbytes, ?_⟩
  intro x hx
  rw [← hbytes] at hx
  rcases Text.mark_of_mem_encode hx with hmark | hmark
  · rw [hmark, h]
  · exact hmark

theorem head?_mark_bytes (t : Text) :
    t.bytes.head?.map Marked.mark = t.head?.map (Marked.mark : Char → Mark) := by
  cases t with
  | nil => rfl
  | cons c t =>
    by_cases hc : (Marked.mark c : Mark) = .plain
    · obtain ⟨b, bs, hbytes, hplain⟩ := encode_of_plain hc
      simp [Text.bytes, hbytes, hc, hplain]
    · obtain ⟨b, hbytes, hmark⟩ := encode_of_marked hc
      simp [Text.bytes, hbytes, hmark]

namespace Scanner

/-- What is settled ahead is the zone the scanner is in, or the slash that ends a block comment. -/
def Settled (s : Scanner) (t : Text) : Prop :=
  ∀ z, s.carry = some z → z = s.zone ∨ t.head?.map (Marked.mark : Char → Mark) = some .slash

theorem step_plain (s : Scanner) (next : Option Mark) :
    s.step .plain next = (s.carry.getD s.zone, { s with carry := none }) := by
  obtain ⟨z, d, k⟩ := s
  cases k with
  | some z' => rfl
  | none => cases z <;> rfl

/-- Further bytes of a character are in the zone the scanner is in. -/
theorem zones_plain {bs : List UInt8} (hbs : ∀ b ∈ bs, (Marked.mark b : Mark) = .plain) {s : Scanner}
    (hs : s.carry = none) (rest : List UInt8) :
    s.zones (bs ++ rest) = bs.map (fun b => (b, s.zone)) ++ s.zones rest := by
  induction bs with
  | nil => rfl
  | cons b bs ih =>
    rw [List.forall_mem_cons] at hbs
    have hread : s.read b (bs ++ rest) = (s.zone, s) := by
      rw [read, hbs.1, step_plain, hs]
      obtain ⟨z, d, k⟩ := s
      obtain rfl : k = none := hs
      rfl
    rw [List.cons_append, zones_cons, hread, ih hbs.2]
    rfl

theorem settled_read (s : Scanner) (c : Char) (t : Text) : (s.read c t).2.Settled t := by
  obtain ⟨z, d, k⟩ := s
  intro z' hcarry
  unfold read at hcarry ⊢
  generalize hnext : t.head?.map (Marked.mark : Char → Mark) = next at hcarry ⊢
  cases k with
  | some z'' => cases hcarry
  | none =>
    unfold step at hcarry ⊢
    -- only a mark of two characters, or an escape, settles the next one ahead
    cases z with
    | code =>
      cases hm : (Marked.mark c : Mark) with
      | slash =>
        cases next with
        | none => simp [hm] at hcarry
        | some m => cases m <;> simp_all
      | _ => simp [hm] at hcarry
    | literal q =>
      cases hm : (Marked.mark c : Mark) with
      | quote q' => by_cases hq : q' = q <;> simp [hm, hq] at hcarry
      | _ => simp_all
    | lineComment => cases hm : (Marked.mark c : Mark) <;> simp [hm] at hcarry
    | blockComment =>
      cases hm : (Marked.mark c : Mark) with
      | star =>
        cases next with
        | none => simp [hm] at hcarry
        | some m => cases m <;> simp_all
      | _ => simp [hm] at hcarry

/-- The bytes of a character are in the zone of the character. -/
theorem zones_bytes : ∀ {t : Text} {s : Scanner}, s.Settled t →
    s.zones t.bytes = (s.zones t).flatMap encodeZoned
  | [], s, _ => rfl
  | c :: t, s, h => by
    have hrest := zones_bytes (s.settled_read c t)
    rw [zones_cons, List.flatMap_cons, ← hrest]
    by_cases hc : (Marked.mark c : Mark) = .plain
    · -- a character of several bytes: what was settled ahead is settled for its first byte only, but
      -- the others are in the zone the scanner is in, which is the same
      obtain ⟨b, bs, hbytes, hplain⟩ := encode_of_plain hc
      rw [List.forall_mem_cons] at hplain
      have hzone : s.carry.getD s.zone = s.zone := by
        cases hcarry : s.carry with
        | none => rfl
        | some z =>
          rcases h z hcarry with hz | hslash
          · exact hz
          · rw [List.head?_cons, Option.map_some, hc] at hslash
            cases hslash
      have hchar : s.read c t = (s.zone, { s with carry := none }) := by
        rw [read, hc, step_plain, hzone]
      have hbyte : s.read b (bs ++ Text.bytes t) = (s.zone, { s with carry := none }) := by
        rw [read, hplain.1, step_plain, hzone]
      rw [Text.bytes, List.flatMap_cons, ← Text.bytes, hbytes, List.cons_append, zones_cons, hbyte,
        zones_plain hplain.2 rfl, hchar, encodeZoned, hbytes]
      rfl
    · obtain ⟨b, hbytes, hmark⟩ := encode_of_marked hc
      have hread : s.read b (Text.bytes t) = s.read c t := by
        rw [read, read, hmark, head?_mark_bytes]
      rw [Text.bytes, List.flatMap_cons, ← Text.bytes, hbytes, List.singleton_append, zones_cons, hread,
        encodeZoned, hbytes]
      rfl

end Scanner

theorem zoned_bytes (t : Text) : zoned t.bytes = (zoned t).flatMap encodeZoned := by
  have hcode : Scanner.start.InCode := ⟨rfl, rfl⟩
  have hsettled : Scanner.start.Settled t := fun z hz => by cases hz
  rw [← Scanner.zones_eq_zoned hcode, ← Scanner.zones_eq_zoned hcode, Scanner.zones_bytes hsettled]

/-- Stripping takes out whole characters. -/
theorem stripComments_bytes (t : Text) : stripComments t.bytes = Text.bytes (stripComments t) := by
  rw [stripComments_eq, stripComments_eq, zoned_bytes, Text.bytes, List.filter_flatMap, List.map_flatMap]
  induction zoned t with
  | nil => rfl
  | cons x xs ih =>
    obtain ⟨c, z⟩ := x
    rw [List.flatMap_cons, ih]
    cases hz : z.isComment <;>
      simp [encodeZoned, hz, List.filter_map, Function.comp_def]

/-! ## Walks -/

theorem spots_eq_scan (bytes : List UInt8) :
    (Walker.startingAt bytes 0).spots = (scan bytes).mapIdx fun i x => x.spot i := by
  have hwalk : Walker.startingAt bytes 0 = ⟨.start, 0, bytes⟩ := by simp [Walker.startingAt]
  rw [hwalk, Walker.spots_eq_run]
  simp only [Nat.zero_add]
  rfl

/-- A spot without its offset. -/
def Spot.seen (s : Spot) : Seen UInt8 := ⟨s.byte, s.zone, s.depth⟩

/-- Spots numbered anew from zero on. -/
def renumber (spots : List Spot) : List Spot := spots.mapIdx fun i s => { s with offset := i }

theorem renumber_eq (spots : List Spot) : renumber spots = (spots.map Spot.seen).mapIdx fun i x => x.spot i := by
  apply List.ext_getElem?
  intro i
  rw [renumber, List.getElem?_mapIdx, List.getElem?_mapIdx, List.getElem?_map, Option.map_map]
  rfl

theorem map_seen_spots (bytes : List UInt8) :
    (Walker.startingAt bytes 0).spots.map Spot.seen = scan bytes := by
  apply List.ext_getElem?
  intro i
  rw [spots_eq_scan, List.getElem?_map, List.getElem?_mapIdx, Option.map_map]
  exact Option.map_id'

/-- The literals of a text, each from its opening delimiter on. -/
def literals (t : Text) : List Text :=
  ((lex t).filter fun u => !u.zone.isComment && !u.zone.isCode).map Lexeme.letters

theorem literals_stripComments (t : Text) : literals (stripComments t) = literals t := by
  rw [literals, literals, lex_stripComments, List.filter_filter]
  congr 2
  funext u
  cases u.zone <;> rfl

theorem stripComments_stripComments (letters : List α) :
    stripComments (stripComments letters) = stripComments letters := by
  rw [stripComments, scan_stripComments, List.filter_filter, stripComments]
  simp only [Bool.and_self]

theorem depthAt_size (t : Text) : depthAt t t.size = openBraces 0 (zoned t.bytes) := by
  have hlength : (zoned t.bytes).length = t.size := by
    rw [← List.length_map (f := Prod.fst), map_fst_zoned, Text.length_bytes]
  rw [depthAt_eq_openBraces, List.take_of_length_le hlength.le]

/-- **Stripping is a projection of the scan**: a walk through the stripped text finds the spots of the text
that are no comments, with their bytes, zones and depths and in their order, numbered anew. So none of them
is a comment, the literals are the same, the depth at the end is the same, and stripping again changes
nothing. -/
theorem spots_stripComments (t : Text) :
    (Walker.startingAt (Text.bytes (stripComments t)) 0).spots =
        renumber ((Walker.startingAt t.bytes 0).spots.filter fun s => !s.zone.isComment) ∧
      (∀ s ∈ (Walker.startingAt (Text.bytes (stripComments t)) 0).spots, s.zone.isComment = false) ∧
      literals (stripComments t) = literals t ∧
      depthAt (stripComments t) (Text.size (stripComments t)) = depthAt t t.size ∧
      stripComments (stripComments t) = stripComments t := by
  have hscan : scan (Text.bytes (stripComments t)) = (scan t.bytes).filter fun x => !x.zone.isComment := by
    rw [← stripComments_bytes, scan_stripComments]
  refine ⟨?_, ?_, literals_stripComments t, ?_, stripComments_stripComments t⟩
  · have hseen : ((Walker.startingAt t.bytes 0).spots.filter fun s => !s.zone.isComment).map Spot.seen =
        (scan t.bytes).filter fun x => !x.zone.isComment := by
      rw [← map_seen_spots, List.filter_map]
      rfl
    rw [renumber_eq, hseen, ← hscan, spots_eq_scan]
  · intro s hs
    have hseen : s.seen ∈ scan (Text.bytes (stripComments t)) := by
      rw [← map_seen_spots]
      exact List.mem_map_of_mem hs
    rw [hscan, List.mem_filter] at hseen
    simpa [Spot.seen] using hseen.2
  · rw [depthAt_size, depthAt_size, ← stripComments_bytes, zoned_stripComments, openBraces_filter]

end GoDraft
