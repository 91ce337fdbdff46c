import GoDraft.Proofs.Scan.Lexemes
import GoDraft.Scan.Walker

/-!
# GoDraft — what a walker finds

A walker sent through a whole text gives one spot a byte. Spots can be told from the lexemes of the text
alone, and the questions about an offset are answered by the spot there.

* `Walker.spots` — all spots ahead of a walker;
* `lexedSpots` — the spots of a text by its lexemes;
* `walker_eq_lexedSpots` — the two agree, for the whole walk and at every offset.
-/

namespace GoDraft

/-- The spot of a byte that was seen at an offset. -/
def Seen.spot (x : Seen UInt8) (offset : Nat) : Spot := ⟨offset, x.letter, x.zone, x.depth⟩

namespace Walker

/-! ## Whole walks -/

theorem rest_of_next? {w w' : Walker} {s : Spot} (h : w.next? = some (s, w')) :
    w.rest = s.byte :: w'.rest := by
  obtain ⟨scanner, position, rest⟩ := w
  cases rest with
  | nil => simp [next?] at h
  | cons b rest =>
    simp only [next?, Option.some.injEq, Prod.mk.injEq] at h
    obtain ⟨rfl, rfl⟩ := h
    rfl

/-- All spots ahead of a walker. -/
def spots (w : Walker) : List Spot :=
  match _h : w.next? with
  | none => []
  | some (s, w') => s :: w'.spots
termination_by w.rest.length
decreasing_by
  rw [rest_of_next? _h]
  exact Nat.lt_succ_self _

theorem spots_of_none {w : Walker} (h : w.next? = none) : w.spots = [] := by
  rw [spots]
  split
  · rfl
  · rename_i h'
    rw [h] at h'
    exact absurd h' (by simp)

theorem spots_of_some {w w' : Walker} {s : Spot} (h : w.next? = some (s, w')) :
    w.spots = s :: w'.spots := by
  rw [spots]
  split
  · rename_i h'
    rw [h] at h'
    exact absurd h' (by simp)
  · rename_i h'
    rw [h, Option.some.injEq, Prod.mk.injEq] at h'
    rw [h'.1, h'.2]

/-- A walk sees what a scan of the bytes ahead sees, offset by offset. -/
theorem spots_eq_run : ∀ (rest : List UInt8) (s : Scanner) (position : Nat),
    (Walker.mk s position rest).spots = (s.run rest).mapIdx fun i x => x.spot (position + i)
  | [], s, position => spots_of_none rfl
  | b :: rest, s, position => by
    have hnext : (Walker.mk s position (b :: rest)).next? =
        some (⟨position, b, (s.read b rest).1, s.depth⟩, ⟨(s.read b rest).2, position + 1, rest⟩) := rfl
    have hshift : (fun i (x : Seen UInt8) => x.spot (position + 1 + i)) =
        fun i x => x.spot (position + (i + 1)) := by
      funext i x
      rw [show position + 1 + i = position + (i + 1) by omega]
    rw [spots_of_some hnext, spots_eq_run rest, Scanner.run, List.mapIdx_cons, hshift]
    rfl

/-! ## Going forward -/

theorem map_fst_next? (w : Walker) : w.next?.map Prod.fst = w.spots.head? := by
  cases h : w.next? with
  | none => rw [spots_of_none h]; rfl
  | some r => rw [spots_of_some h]; rfl

/-- Going forward leaves the spots behind. -/
theorem spots_advance (n : Nat) (w : Walker) : (advance n w).spots = w.spots.drop n := by
  induction n generalizing w with
  | zero => rfl
  | succ n ih =>
    rw [advance]
    cases h : w.next? with
    | none => rw [spots_of_none h]; rfl
    | some r => rw [spots_of_some h, List.drop_succ_cons, ← ih]

/-- Going forward counts the code braces that are left behind. -/
theorem depth_advance (n : Nat) {w : Walker} (h : w.scanner.Fresh) :
    (advance n w).scanner.depth = openBraces w.scanner.depth ((w.scanner.zones w.rest).take n) := by
  induction n generalizing w with
  | zero => rfl
  | succ n ih =>
    obtain ⟨s, position, rest⟩ := w
    cases rest with
    | nil => rfl
    | cons b rest =>
      obtain ⟨hfresh, hdepth⟩ := h.read b rest
      have hnext : (advance (n + 1) (Walker.mk s position (b :: rest))) =
          advance n ⟨(s.read b rest).2, position + 1, rest⟩ := rfl
      rw [hnext, ih hfresh, hdepth, Scanner.zones_cons, List.take_succ_cons]
      rfl

end Walker

/-! ## Spots by lexemes -/

/-- The spots of some bytes: the zones by their lexemes, the depths by the code braces before them. -/
def lexedSpots (bytes : List UInt8) : List Spot :=
  (zoned bytes).mapIdx fun i x => ⟨i, x.1, x.2, openBraces 0 ((zoned bytes).take i)⟩

theorem Scanner.map_fst_zones {α : Type} [Marked α] (s : Scanner) (letters : List α) :
    (s.zones letters).map Prod.fst = letters := by
  rw [Scanner.zones, List.map_map]
  exact s.map_letter_run letters

theorem map_fst_zoned {α : Type} [Marked α] (letters : List α) : (zoned letters).map Prod.fst = letters := by
  have hcode : Scanner.start.InCode := ⟨rfl, rfl⟩
  rw [← Scanner.zones_eq_zoned hcode, Scanner.map_fst_zones]

theorem spots_startingAt_zero (bytes : List UInt8) :
    (Walker.startingAt bytes 0).spots = lexedSpots bytes := by
  have hwalk : Walker.startingAt bytes 0 = ⟨.start, 0, bytes⟩ := by simp [Walker.startingAt]
  rw [hwalk, Walker.spots_eq_run, show Scanner.start.run bytes = scan bytes from rfl, scan_eq_counted]
  apply List.ext_getElem?
  intro i
  rw [lexedSpots, List.getElem?_mapIdx, List.getElem?_mapIdx, getElem?_counted, Option.map_map, Nat.zero_add]
  rfl

theorem spotAt?_eq_getElem? (t : Text) (offset : Nat) : spotAt? t offset = (lexedSpots t.bytes)[offset]? := by
  have hposition : (Walker.startingAt t.bytes 0).position = 0 := Nat.zero_min _
  rw [spotAt?, Walker.map_fst_next?, Walker.advanceTo, Walker.spots_advance, spots_startingAt_zero,
    hposition, Nat.sub_zero, List.head?_drop]

theorem depthAt_eq_openBraces (t : Text) (offset : Nat) :
    depthAt t offset = openBraces 0 ((zoned t.bytes).take offset) := by
  have hcode : Scanner.start.InCode := ⟨rfl, rfl⟩
  have hfresh : (Walker.startingAt t.bytes 0).scanner.Fresh := by
    simp [Walker.startingAt, Scanner.Fresh, Scanner.start]
  have hposition : (Walker.startingAt t.bytes 0).position = 0 := Nat.zero_min _
  have hzones : (Walker.startingAt t.bytes 0).scanner.zones (Walker.startingAt t.bytes 0).rest =
      zoned t.bytes := Scanner.zones_eq_zoned hcode t.bytes
  rw [depthAt, Walker.advanceTo, Walker.depth_advance _ hfresh, hposition, Nat.sub_zero, hzones]
  rfl

/-- **The scanner follows the grammar**: a walk through a text gives every byte once and in order, with
the zone of its lexeme and the count of the code braces before it. At an offset there is the spot of that
number in the walk, and past the end the depth is that of the whole text. -/
theorem walker_eq_lexedSpots (t : Text) :
    (Walker.startingAt t.bytes 0).spots = lexedSpots t.bytes ∧
      (lexedSpots t.bytes).map Spot.byte = t.bytes ∧
      (∀ offset, spotAt? t offset = (lexedSpots t.bytes)[offset]?) ∧
      ∀ offset, depthAt t offset =
        ((lexedSpots t.bytes)[offset]?.map Spot.depth).getD (openBraces 0 (zoned t.bytes)) := by
  refine ⟨spots_startingAt_zero t.bytes, ?_, spotAt?_eq_getElem? t, fun offset => ?_⟩
  · have hbyte : (lexedSpots t.bytes).map Spot.byte = (zoned t.bytes).map Prod.fst := by
      apply List.ext_getElem?
      intro i
      simp [lexedSpots, List.getElem?_mapIdx, Function.comp_def]
    rw [hbyte, map_fst_zoned]
  · rw [depthAt_eq_openBraces, lexedSpots, List.getElem?_mapIdx]
    cases h : (zoned t.bytes)[offset]? with
    | none => rw [List.take_of_length_le (List.getElem?_eq_none_iff.mp h)]; rfl
    | some x => rfl

end GoDraft
