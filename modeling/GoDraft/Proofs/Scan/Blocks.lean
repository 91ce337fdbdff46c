import GoDraft.Proofs.Scan.Spots

/-!
# GoDraft — blocks

The end of a block is looked for by a scan of its own, which begins at the opening brace in code and at
depth zero. Where the scan from the start of the text has that brace as code too, the two scans tell the
same zones from there on, and their depths differ by a constant until the block is closed. So the end of
a block can be told from the scan of the whole text, whatever stands before the block.

* `drop_zoned` — a scan that begins at a code brace tells the zones of the scan from the start;
* `matchingBrace?_eq_findIdx?` — the end of a block by the depths of the scan from the start;
* `le_openBraces` — until the block is closed the depth stays above that of its opening brace;
* `matchingBrace?_of_opensAt` — both scans, the end of a block, and two blocks side by side.
-/

namespace GoDraft

/-! ## A scan that begins at a code brace -/

section Letters

variable {α : Type} [Marked α]

namespace Scanner

/-- A scanner that tells an opening brace to be code stands in code. -/
theorem inCode_of_read {s : Scanner} (h : s.Fresh) {a : α} {rest : List α}
    (ha : Marked.mark a = .openBrace) (hzone : (s.read a rest).1 = .code) : s.InCode := by
  obtain ⟨z, d, k⟩ := s
  rw [read, ha] at hzone
  cases k with
  | some z' => exact absurd (congrArg some hzone) h
  | none =>
    cases z with
    | code => exact ⟨rfl, rfl⟩
    | _ => exact absurd hzone (by simp [step])

theorem drop_zones_of_openBrace {a : α} (ha : Marked.mark a = .openBrace) :
    ∀ {letters : List α} {s : Scanner} {n : Nat}, s.Fresh → (s.zones letters)[n]? = some (a, .code) →
      (s.zones letters).drop n = zoned (letters.drop n)
  | [], s, n, _, h => by simp [zones, run] at h
  | b :: rest, s, 0, hfresh, h => by
    rw [zones_cons, List.getElem?_cons_zero, Option.some.injEq, Prod.mk.injEq] at h
    obtain ⟨rfl, hzone⟩ := h
    rw [List.drop_zero, List.drop_zero, zones_eq_zoned (inCode_of_read hfresh ha hzone)]
  | b :: rest, s, n + 1, hfresh, h => by
    rw [zones_cons, List.getElem?_cons_succ] at h
    rw [zones_cons, List.drop_succ_cons, List.drop_succ_cons]
    exact drop_zones_of_openBrace ha (hfresh.read b rest).1 h

end Scanner

/-- From an opening brace in code on, the zones do not depend on what stands before it. -/
theorem drop_zoned {letters : List α} {n : Nat} {a : α} (ha : Marked.mark a = .openBrace)
    (h : (zoned letters)[n]? = some (a, .code)) : (zoned letters).drop n = zoned (letters.drop n) := by
  have hcode : Scanner.start.InCode := ⟨rfl, rfl⟩
  have hfresh : Scanner.start.Fresh := by simp [Scanner.Fresh, Scanner.start]
  rw [← Scanner.zones_eq_zoned hcode] at h ⊢
  exact Scanner.drop_zones_of_openBrace ha hfresh h

/-! ## Depths that differ by a constant -/

theorem openBraces_append (depth : Nat) (xs ys : List (α × Zone)) :
    openBraces depth (xs ++ ys) = openBraces (openBraces depth xs) ys := List.foldl_append

/-- Whether a letter is a closing brace in code. -/
def isClosing (x : α × Zone) : Bool := Marked.mark x.1 == .closeBrace && x.2.isCode

/-- A depth behind a letter, for a depth that is not zero: only a closing brace lowers it. -/
theorem depthAfter_add {depth : Nat} (x : α × Zone) (h : isClosing x = true → 0 < depth) (d : Nat) :
    depthAfter (depth + d) x = depthAfter depth x + d := by
  obtain ⟨a, z⟩ := x
  cases z with
  | code =>
    unfold depthAfter
    cases hm : Marked.mark a with
    | openBrace => exact Nat.add_right_comm depth d 1
    | closeBrace =>
      have hpos := h (by simp [isClosing, hm, Zone.isCode])
      show depth + d - 1 = depth - 1 + d
      omega
    | _ => rfl
  | _ => rfl

theorem le_depthAfter {depth k : Nat} {x : α × Zone} (hk : k ≤ depth)
    (h : ¬ (isClosing x = true ∧ depth = k)) : k ≤ depthAfter depth x := by
  obtain ⟨a, z⟩ := x
  cases z with
  | code =>
    unfold depthAfter
    cases hm : Marked.mark a with
    | openBrace => exact Nat.le_succ_of_le hk
    | closeBrace =>
      have hne : depth ≠ k := fun he => h ⟨by simp [isClosing, hm, Zone.isCode], he⟩
      show k ≤ depth - 1
      omega
    | _ => exact hk
  | _ => exact hk

/-- Whether a letter is a closing brace in code at a depth. -/
def Seen.closesAt (k : Nat) (x : Seen α) : Bool := isClosing (x.letter, x.zone) && x.depth == k

theorem closesAt_mk (a : α) (z : Zone) (depth k : Nat) :
    (Seen.mk a z depth).closesAt k = true ↔ isClosing (a, z) = true ∧ depth = k := by
  rw [Seen.closesAt, Bool.and_eq_true, beq_iff_eq]

theorem findIdx?_eq_some_iff_getElem? {β : Type} {p : β → Bool} {ys : List β} {i : Nat} :
    ys.findIdx? p = some i ↔ (∃ y ∈ ys[i]?, p y = true) ∧ ∀ j < i, ∀ y ∈ ys[j]?, p y = false := by
  rw [List.findIdx?_eq_some_iff_getElem]
  constructor
  · rintro ⟨hi, hp, hbefore⟩
    refine ⟨⟨ys[i], by simp, hp⟩, fun j hj y hy => ?_⟩
    obtain ⟨hlt, rfl⟩ := List.getElem?_eq_some_iff.mp hy
    simpa using hbefore j hj
  · rintro ⟨⟨y, hy, hp⟩, hbefore⟩
    obtain ⟨hlt, rfl⟩ := List.getElem?_eq_some_iff.mp hy
    refine ⟨hlt, hp, fun j hj => ?_⟩
    simpa using hbefore j hj _ (List.getElem?_eq_getElem (by omega))

-- The induction is on the letters; the depths stay above zero until the brace that is looked for.
/-- The first return to a depth is the same for depths that differ by a constant. -/
theorem findIdx?_closesAt_add (d : Nat) (xs : List (α × Zone)) {depth : Nat} (h : 0 < depth) :
    (counted depth xs).findIdx? (Seen.closesAt 1) =
      (counted (depth + d) xs).findIdx? (Seen.closesAt (1 + d)) := by
  induction xs generalizing depth with
  | nil => rfl
  | cons x xs ih =>
    have hsame : (Seen.mk x.1 x.2 depth).closesAt 1 = (Seen.mk x.1 x.2 (depth + d)).closesAt (1 + d) := by
      rw [Bool.eq_iff_iff, closesAt_mk, closesAt_mk]
      exact and_congr_right fun _ => by omega
    rw [counted, counted, List.findIdx?_cons, List.findIdx?_cons, ← hsame]
    by_cases hclose : (Seen.mk x.1 x.2 depth).closesAt 1 = true
    · rw [hclose]
      rfl
    · have hnext : 0 < depthAfter depth x := le_depthAfter h (by rwa [closesAt_mk] at hclose)
      rw [Bool.not_eq_true] at hclose
      rw [hclose, depthAfter_add x (fun _ => h) d, ih hnext]

/-- Before the first return to a depth, the depth stays at least that. -/
theorem le_openBraces {k : Nat} : ∀ {xs : List (α × Zone)} {depth i : Nat}, k ≤ depth →
    (∀ j < i, ∀ x ∈ (counted depth xs)[j]?, x.closesAt k = false) → k ≤ openBraces depth (xs.take i)
  | [], depth, i, hk, _ => by simpa [openBraces] using hk
  | x :: xs, depth, 0, hk, _ => hk
  | x :: xs, depth, i + 1, hk, h => by
    have hfirst : ¬ (isClosing x = true ∧ depth = k) := by
      rw [← closesAt_mk, Bool.not_eq_true]
      exact h 0 (Nat.succ_pos i) ⟨x.1, x.2, depth⟩ rfl
    show k ≤ openBraces (depthAfter depth x) (xs.take i)
    exact le_openBraces (le_depthAfter hk hfirst) fun j hj => h (j + 1) (Nat.succ_lt_succ hj)

end Letters

/-! ## The end of a block -/

/-- At an offset there is an opening brace in code, with a depth before it. -/
def OpensAt (t : Text) (offset depth : Nat) : Prop :=
  spotAt? t offset = some ⟨offset, openBraceByte, .code, depth⟩

/-- At an offset there is a closing brace in code, with a depth before it. -/
def ClosesAt (t : Text) (offset depth : Nat) : Prop :=
  spotAt? t offset = some ⟨offset, closeBraceByte, .code, depth⟩

section Block

variable {t : Text} {start depth : Nat}

/-- The zones behind an offset. -/
def zonesBehind (t : Text) (start : Nat) : List (UInt8 × Zone) := (zoned t.bytes).drop (start + 1)

theorem getElem?_of_spotAt? {offset : Nat} {s : Spot} (h : spotAt? t offset = some s) :
    (zoned t.bytes)[offset]? = some (s.byte, s.zone) ∧ s.depth = depthAt t offset := by
  rw [spotAt?_eq_getElem?, lexedSpots, List.getElem?_mapIdx, Option.map_eq_some_iff] at h
  obtain ⟨x, hx, rfl⟩ := h
  exact ⟨hx, (depthAt_eq_openBraces t offset).symm⟩

theorem spotAt?_eq_some {offset : Nat} {x : UInt8 × Zone} (h : (zoned t.bytes)[offset]? = some x) :
    spotAt? t offset = some ⟨offset, x.1, x.2, depthAt t offset⟩ := by
  rw [spotAt?_eq_getElem?, lexedSpots, List.getElem?_mapIdx, h, depthAt_eq_openBraces]
  rfl

/-- Behind an opening brace the depth is counted from one more than before it. -/
theorem OpensAt.depthAt (h : OpensAt t start depth) (i : Nat) :
    GoDraft.depthAt t (start + 1 + i) = openBraces (depth + 1) ((zonesBehind t start).take i) := by
  obtain ⟨hbrace, hdepth⟩ := getElem?_of_spotAt? h
  have htake : (zoned t.bytes).take (start + 1 + i) =
      (zoned t.bytes).take start ++ (openBraceByte, .code) :: (zonesBehind t start).take i := by
    rw [List.take_add, List.take_add_one, hbrace, List.append_assoc]
    rfl
  rw [depthAt_eq_openBraces] at hdepth
  rw [depthAt_eq_openBraces, htake, openBraces_append, ← hdepth]
  rfl

theorem OpensAt.zoned_drop (h : OpensAt t start depth) :
    zoned (t.bytes.drop start) = (openBraceByte, .code) :: zonesBehind t start := by
  obtain ⟨hbrace, -⟩ := getElem?_of_spotAt? h
  obtain ⟨hlt, hget⟩ := List.getElem?_eq_some_iff.mp hbrace
  rw [← drop_zoned rfl hbrace, List.drop_eq_getElem_cons hlt, hget]
  rfl

theorem mark_eq_closeBrace_iff (b : UInt8) : Marked.mark b = Mark.closeBrace ↔ b = closeBraceByte := by
  have hmark : Marked.mark b = Mark.ofCode b.toNat := rfl
  refine ⟨fun h => ?_, fun h => h ▸ rfl⟩
  rw [hmark] at h
  unfold Mark.ofCode at h
  have hcode : b.toNat = 0x7d := by
    split_ifs at h
    assumption
  exact UInt8.toNat_inj.mp hcode

theorem isClosing_eq (b : UInt8) (z : Zone) : isClosing (b, z) = (b == closeBraceByte && z.isCode) := by
  have hmark : (Marked.mark b == Mark.closeBrace) = (b == closeBraceByte) := by
    rw [Bool.eq_iff_iff, beq_iff_eq, beq_iff_eq, mark_eq_closeBrace_iff]
  rw [isClosing, hmark]

/-- The end of a block by the depths of the scan from the start of the text. -/
theorem OpensAt.matchingBrace?_eq_findIdx? (h : OpensAt t start depth) :
    matchingBrace? t start =
      ((counted (depth + 1) (zonesBehind t start)).findIdx? (Seen.closesAt (depth + 1))).map
        (start + 1 + ·) := by
  obtain ⟨hbrace, -⟩ := getElem?_of_spotAt? h
  have hhead : (t.bytes.drop start).head? = some openBraceByte := by
    rw [List.head?_drop, ← map_fst_zoned t.bytes, List.getElem?_map, hbrace]
    rfl
  have htest : (fun s : Seen UInt8 => s.letter == closeBraceByte && s.zone.isCode && s.depth == 1) =
      Seen.closesAt 1 := by
    funext s
    rw [Seen.closesAt, isClosing_eq]
  have hscan : scan (t.bytes.drop start) =
      ⟨openBraceByte, .code, 0⟩ :: counted 1 (zonesBehind t start) := by
    rw [scan_eq_counted, h.zoned_drop]
    rfl
  -- a scan from the brace counts from one where the scan of the text counts from `depth + 1`
  have hshift := findIdx?_closesAt_add depth (zonesBehind t start) Nat.one_pos
  rw [Nat.add_comm 1 depth] at hshift
  have hfirst : (Seen.mk openBraceByte .code 0).closesAt 1 = false := rfl
  unfold matchingBrace?
  rw [if_pos hhead, htest, hscan, List.findIdx?_cons, hfirst, hshift]
  simp only [Bool.false_eq_true, if_false, Option.map_map]
  congr 1
  funext i
  show start + (i + 1) = start + 1 + i
  omega

/-- What the count of the scan from the start has at a place behind an opening brace. -/
theorem OpensAt.closesAt_iff (h : OpensAt t start depth) (i : Nat) :
    ClosesAt t (start + 1 + i) (depth + 1) ↔
      ∃ x ∈ (counted (depth + 1) (zonesBehind t start))[i]?, x.closesAt (depth + 1) = true := by
  have hplace : (zonesBehind t start)[i]? = (zoned t.bytes)[start + 1 + i]? := List.getElem?_drop
  rw [getElem?_counted, hplace, ← h.depthAt i]
  constructor
  · intro hclose
    obtain ⟨hbyte, hdepth⟩ := getElem?_of_spotAt? hclose
    refine ⟨⟨closeBraceByte, .code, GoDraft.depthAt t (start + 1 + i)⟩, by rw [hbyte]; rfl, ?_⟩
    exact (closesAt_mk _ _ _ _).mpr ⟨rfl, hdepth.symm⟩
  · rintro ⟨x, hx, hclose⟩
    obtain ⟨⟨b, z⟩, hbyte, rfl⟩ := Option.map_eq_some_iff.mp hx
    obtain ⟨hclosing, hdepth⟩ := (closesAt_mk _ _ _ _).mp hclose
    rw [isClosing_eq, Bool.and_eq_true, beq_iff_eq] at hclosing
    obtain ⟨rfl, hcode⟩ := hclosing
    obtain rfl : z = .code := by
      cases z with
      | code => rfl
      | _ => exact absurd hcode Bool.false_ne_true
    rw [ClosesAt, spotAt?_eq_some hbyte, hdepth]

theorem OpensAt.matchingBrace?_eq_some_iff (h : OpensAt t start depth) (close : Nat) :
    matchingBrace? t start = some close ↔ start < close ∧ ClosesAt t close (depth + 1) ∧
      ∀ o, start < o → o < close → ¬ ClosesAt t o (depth + 1) := by
  rw [h.matchingBrace?_eq_findIdx?, Option.map_eq_some_iff]
  constructor
  · rintro ⟨i, hi, rfl⟩
    obtain ⟨hclose, hbefore⟩ := findIdx?_eq_some_iff_getElem?.mp hi
    refine ⟨by omega, (h.closesAt_iff i).mpr hclose, fun o hstart hlt ho => ?_⟩
    obtain ⟨j, rfl⟩ : ∃ j, o = start + 1 + j := ⟨o - (start + 1), by omega⟩
    obtain ⟨x, hx, hx'⟩ := (h.closesAt_iff j).mp ho
    rw [hbefore j (by omega) x hx] at hx'
    exact absurd hx' Bool.false_ne_true
  · rintro ⟨hlt, hclose, hbefore⟩
    obtain ⟨i, rfl⟩ : ∃ i, close = start + 1 + i := ⟨close - (start + 1), by omega⟩
    refine ⟨i, findIdx?_eq_some_iff_getElem?.mpr ⟨(h.closesAt_iff i).mp hclose, fun j hj x hx => ?_⟩, rfl⟩
    rw [Bool.eq_false_iff]
    intro hx'
    exact hbefore (start + 1 + j) (by omega) (by omega) ((h.closesAt_iff j).mpr ⟨x, hx, hx'⟩)

/-- Inside a block the depth stays above that of its opening brace. -/
theorem OpensAt.lt_depthAt (h : OpensAt t start depth) {stop : Nat}
    (hopen : ∀ o, start < o → o < stop → ¬ ClosesAt t o (depth + 1)) :
    ∀ o, start < o → o ≤ stop → depth + 1 ≤ GoDraft.depthAt t o := by
  intro o hstart hstop
  obtain ⟨i, rfl⟩ : ∃ i, o = start + 1 + i := ⟨o - (start + 1), by omega⟩
  rw [h.depthAt]
  apply le_openBraces (Nat.le_refl _)
  intro j hj x hx
  rw [Bool.eq_false_iff]
  intro hx'
  exact hopen (start + 1 + j) (by omega) (by omega) ((h.closesAt_iff j).mpr ⟨x, hx, hx'⟩)

/-- Behind the end of a block the depth is that before the block. -/
theorem ClosesAt.depthAt_succ {close : Nat} (h : ClosesAt t close (depth + 1)) :
    GoDraft.depthAt t (close + 1) = depth := by
  obtain ⟨hbrace, hdepth⟩ := getElem?_of_spotAt? h
  rw [depthAt_eq_openBraces] at hdepth ⊢
  rw [List.take_add_one, hbrace, openBraces_append, ← hdepth]
  rfl

theorem ClosesAt.lt_length {close : Nat} (h : ClosesAt t close depth) : close < t.bytes.length := by
  obtain ⟨hbrace, -⟩ := getElem?_of_spotAt? h
  obtain ⟨hlt, -⟩ := List.getElem?_eq_some_iff.mp hbrace
  rw [← map_fst_zoned t.bytes, List.length_map]
  exact hlt

theorem OpensAt.matchingBrace?_eq_none_iff (h : OpensAt t start depth) :
    matchingBrace? t start = none ↔
      ∀ o, start < o → o ≤ t.bytes.length → depth + 1 ≤ GoDraft.depthAt t o := by
  constructor
  · intro hnone o hstart _
    rw [h.matchingBrace?_eq_findIdx?, Option.map_eq_none_iff, List.findIdx?_eq_none_iff] at hnone
    refine h.lt_depthAt (fun o' hstart' _ hclose => ?_) o hstart (Nat.le_refl o)
    obtain ⟨i, rfl⟩ : ∃ i, o' = start + 1 + i := ⟨o' - (start + 1), by omega⟩
    obtain ⟨x, hx, hx'⟩ := (h.closesAt_iff i).mp hclose
    rw [hnone x (List.mem_of_getElem? hx)] at hx'
    exact absurd hx' Bool.false_ne_true
  · intro hdepth
    rw [Option.eq_none_iff_forall_ne_some]
    intro close hsome
    obtain ⟨hlt, hclose, -⟩ := (h.matchingBrace?_eq_some_iff close).mp hsome
    have hbound := hclose.lt_length
    have hle := hdepth (close + 1) (by omega) (by omega)
    rw [hclose.depthAt_succ] at hle
    omega

/-- A walk that begins at an opening brace in code tells every byte the zone that the walk from the start
tells. -/
theorem OpensAt.spots_startingAt (h : OpensAt t start depth) :
    ((Walker.startingAt t.bytes start).spots.map fun s => (s.offset, s.byte, s.zone)) =
      ((Walker.startingAt t.bytes 0).spots.drop start).map fun s => (s.offset, s.byte, s.zone) := by
  obtain ⟨hbrace, -⟩ := getElem?_of_spotAt? h
  obtain ⟨hlt, -⟩ := List.getElem?_eq_some_iff.mp hbrace
  have hlength : (zoned t.bytes).length = t.bytes.length := by
    rw [← List.length_map (f := Prod.fst), map_fst_zoned]
  have hwalk : Walker.startingAt t.bytes start = ⟨.start, start, t.bytes.drop start⟩ := by
    rw [Walker.startingAt, Nat.min_eq_left (by omega)]
  have hscan : Scanner.start.run (t.bytes.drop start) = counted 0 ((zoned t.bytes).drop start) := by
    rw [drop_zoned rfl hbrace]
    exact scan_eq_counted (t.bytes.drop start)
  rw [spots_startingAt_zero, hwalk, Walker.spots_eq_run, hscan]
  apply List.ext_getElem?
  intro i
  rw [lexedSpots, List.getElem?_map, List.getElem?_map, List.getElem?_mapIdx, getElem?_counted,
    List.getElem?_drop, List.getElem?_drop, List.getElem?_mapIdx, Option.map_map, Option.map_map,
    Option.map_map]
  rfl

/-- Two blocks are apart or one lies in the other. -/
theorem OpensAt.apart_or_nested {start' depth' close close' : Nat} (h : OpensAt t start depth)
    (h' : OpensAt t start' depth') (hclose : matchingBrace? t start = some close)
    (hclose' : matchingBrace? t start' = some close') (hlt : start < start') :
    close < start' ∨ close' < close := by
  obtain ⟨-, hend, hinside⟩ := (h.matchingBrace?_eq_some_iff close).mp hclose
  obtain ⟨hlt', hend', hinside'⟩ := (h'.matchingBrace?_eq_some_iff close').mp hclose'
  rcases Nat.lt_or_ge close start' with hapart | hbehind
  · exact .inl hapart
  · refine .inr ?_
    have hdepth' : depth' = GoDraft.depthAt t start' := (getElem?_of_spotAt? h').2
    have hdepth : depth + 1 = GoDraft.depthAt t close := (getElem?_of_spotAt? hend).2
    have hdeeper : depth + 1 ≤ depth' := hdepth' ▸ h.lt_depthAt hinside start' hlt hbehind
    have hne : close ≠ start' := by
      rintro rfl
      rw [ClosesAt, h', Option.some.injEq, Spot.mk.injEq] at hend
      exact absurd hend.2.1 (by decide)
    by_contra hnot
    have hle := h'.lt_depthAt hinside' close (by omega) (by omega)
    omega

/-- **A scan of a block agrees with the scan of the whole text.** Let there be an opening brace that the
scan from the start has as code. The scan that begins there tells the same zones. The block ends at the
first closing brace in code one level deeper, up to which the depth stays that deep; it has no end exactly
when the depth stays that deep to the end of the text. Two blocks with an end are apart or nested, and no
brace ends two blocks. -/
theorem matchingBrace?_of_opensAt (t : Text) (start depth : Nat) (h : OpensAt t start depth) :
    (((Walker.startingAt t.bytes start).spots.map fun s => (s.offset, s.byte, s.zone)) =
      ((Walker.startingAt t.bytes 0).spots.drop start).map fun s => (s.offset, s.byte, s.zone)) ∧
    (∀ close, matchingBrace? t start = some close ↔ start < close ∧ ClosesAt t close (depth + 1) ∧
      ∀ o, start < o → o < close → ¬ ClosesAt t o (depth + 1)) ∧
    (∀ close, matchingBrace? t start = some close →
      ∀ o, start < o → o ≤ close → depth + 1 ≤ depthAt t o) ∧
    (matchingBrace? t start = none ↔
      ∀ o, start < o → o ≤ t.bytes.length → depth + 1 ≤ depthAt t o) ∧
    ∀ start' depth', OpensAt t start' depth' → ∀ close close', matchingBrace? t start = some close →
      matchingBrace? t start' = some close' →
      (start < start' → close < start' ∨ close' < close) ∧ (close = close' → start = start') := by
  refine ⟨h.spots_startingAt, h.matchingBrace?_eq_some_iff, fun close hclose => ?_,
    h.matchingBrace?_eq_none_iff, fun start' depth' h' close close' hclose hclose' => ⟨?_, ?_⟩⟩
  · exact h.lt_depthAt ((h.matchingBrace?_eq_some_iff close).mp hclose).2.2
  · exact h.apart_or_nested h' hclose hclose'
  · rintro rfl
    have hlt := ((h.matchingBrace?_eq_some_iff close).mp hclose).1
    have hlt' := ((h'.matchingBrace?_eq_some_iff close).mp hclose').1
    rcases Nat.lt_trichotomy start start' with hbefore | rfl | hbehind
    · rcases h.apart_or_nested h' hclose hclose' hbefore with hc | hc <;> omega
    · rfl
    · rcases h'.apart_or_nested h hclose' hclose hbehind with hc | hc <;> omega

/-- A block behind a closing brace too many, with braces in a literal and in a comment. -/
theorem matchingBrace?_of_opensAt_one :
    OpensAt "\x7d\x7b\"\x7d\"\x7b\x7d//\x7d\n\x7d" 1 0 ∧
      matchingBrace? "\x7d\x7b\"\x7d\"\x7b\x7d//\x7d\n\x7d" 1 = some 11 := by
  have hopen : OpensAt "\x7d\x7b\"\x7d\"\x7b\x7d//\x7d\n\x7d" 1 0 := by
    unfold OpensAt
    decide
  refine ⟨hopen, ((matchingBrace?_of_opensAt _ 1 0 hopen).2.1 11).mpr ⟨by decide, ?_, ?_⟩⟩
  · unfold ClosesAt
    decide
  · have hinside : ∀ o < 11, 1 < o →
        ¬ spotAt? "\x7d\x7b\"\x7d\"\x7b\x7d//\x7d\n\x7d" o = some ⟨o, closeBraceByte, .code, 1⟩ := by decide
    exact fun o hstart hlt => hinside o hlt hstart

end Block

end GoDraft
