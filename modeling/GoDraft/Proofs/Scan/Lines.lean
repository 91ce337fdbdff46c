import GoDraft.Proofs.Scan.Spots
import GoDraft.Proofs.Pattern.Views

/-!
# GoDraft — a scan part by part

The scanner looks one letter ahead only at a slash or a star. Where a part of a text ends with any other
letter, a scan goes through the part as if nothing followed, and goes on behind it from the state it is in
there. A line comment leaves that state as it was.

* `Text.length_bytes`, `Text.mark_of_mem_bytes` — the bytes of a text and their marks;
* `Scanner.run_append` — a part and what follows it;
* `Scanner.run_commentLine`, `Scanner.after_commentLine` — a line comment with its line feed;
* `isMemberAt_eq` — whether a member of a class can begin at an offset, by the scan.
-/

namespace GoDraft

/-! ## Bytes -/

namespace Text

theorem bytes_append (s t : Text) : bytes (s ++ t) = s.bytes ++ t.bytes := List.flatMap_append

theorem bytes_injective : Function.Injective bytes := by
  intro t u h
  have hencode : List.utf8Encode t = List.utf8Encode u := congrArg List.toByteArray h
  have hstring : String.ofList t = String.ofList u := by
    rw [← String.toByteArray_inj, String.toByteArray_ofList, String.toByteArray_ofList, hencode]
  rw [← String.toList_ofList (l := t), hstring, String.toList_ofList]

theorem length_bytes (t : Text) : t.bytes.length = t.size := by
  induction t with
  | nil => rfl
  | cons c t ih =>
    rw [bytes, List.flatMap_cons, List.length_append, String.length_utf8EncodeChar, ← bytes, ih, size_cons]

/-- A byte of a character has the mark of the character or none. -/
theorem mark_of_mem_encode {c : Char} {b : UInt8} (h : b ∈ String.utf8EncodeChar c) :
    (Marked.mark b : Mark) = Marked.mark c ∨ (Marked.mark b : Mark) = .plain := by
  -- all marked characters are ASCII, and every byte of a longer encoding is at least 128
  have hplain : ∀ n : Nat, 128 ≤ n → n < 256 → (Marked.mark (UInt8.ofNat n) : Mark) = .plain := by
    intro n hlow hhigh
    have hmark : (Marked.mark (UInt8.ofNat n) : Mark) = Mark.ofCode (UInt8.ofNat n).toNat := rfl
    rw [hmark, UInt8.toNat_ofNat', Nat.mod_eq_of_lt (by omega), Mark.ofCode]
    repeat rw [if_neg (by omega)]
  unfold String.utf8EncodeChar at h
  dsimp only at h
  split at h
  · rename_i hlow
    rw [List.mem_singleton.mp h]
    left
    show Mark.ofCode (UInt8.ofNat c.val.toNat).toNat = Mark.ofCode c.toNat
    rw [UInt8.toNat_ofNat', Nat.mod_eq_of_lt (by omega)]
    rfl
  · right
    split at h
    · simp only [List.mem_cons, List.not_mem_nil, or_false] at h
      rcases h with rfl | rfl <;> exact hplain _ (by omega) (by omega)
    · split at h
      · simp only [List.mem_cons, List.not_mem_nil, or_false] at h
        rcases h with rfl | rfl | rfl <;> exact hplain _ (by omega) (by omega)
      · simp only [List.mem_cons, List.not_mem_nil, or_false] at h
        rcases h with rfl | rfl | rfl | rfl <;> exact hplain _ (by omega) (by omega)

theorem mark_of_mem_bytes {t : Text} {b : UInt8} (h : b ∈ t.bytes) :
    (∃ c ∈ t, (Marked.mark b : Mark) = Marked.mark c) ∨ (Marked.mark b : Mark) = .plain := by
  obtain ⟨c, hc, hb⟩ := List.mem_flatMap.mp h
  exact (mark_of_mem_encode hb).imp (fun hmark => ⟨c, hc, hmark⟩) id

end Text

/-! ## A part and what follows it -/

/-- Whether the scanner looks at the letter behind a mark. -/
def Mark.looksAhead : Mark → Bool
  | .slash | .star => true
  | _ => false

namespace Scanner

variable {α : Type} [Marked α] {s : Scanner} {a : α} {xs ys : List α}

theorem read_of_looksAhead (h : (Marked.mark a).looksAhead = false) (ys zs : List α) :
    s.read a ys = s.read a zs := by
  unfold read step
  cases hm : Marked.mark a with
  | slash => rw [hm] at h; cases h
  | star => rw [hm] at h; cases h
  | _ => rfl

theorem read_append (h : ∀ x, (a :: xs).getLast? = some x → (Marked.mark x).looksAhead = false) :
    s.read a (xs ++ ys) = s.read a xs := by
  cases xs with
  | nil => exact read_of_looksAhead (h a rfl) _ _
  | cons b xs => rfl

/-- A scan goes through a part as if nothing followed, and then on from the state behind it. -/
theorem run_append (h : ∀ x, xs.getLast? = some x → (Marked.mark x).looksAhead = false) :
    s.run (xs ++ ys) = s.run xs ++ (s.after xs).run ys := by
  induction xs generalizing s with
  | nil => rfl
  | cons a xs ih =>
    have htail : ∀ x, xs.getLast? = some x → (Marked.mark x).looksAhead = false := by
      intro x hx
      exact h x (by rw [List.getLast?_cons, hx]; rfl)
    rw [List.cons_append, run, read_append h, ih htail, run, after]
    rfl

theorem length_run (s : Scanner) (xs : List α) : (s.run xs).length = xs.length := by
  rw [← List.length_map (f := Seen.letter), map_letter_run]

/-! ## Line comments -/

/-- The letters of a line comment. -/
theorem run_inComment (d : Nat) {nl : α} (hnl : Marked.mark nl = .newline)
    (hxs : ∀ x ∈ xs, Marked.mark x ≠ .newline) :
    (mk .lineComment d none).run (xs ++ [nl]) =
        xs.map (fun x => ⟨x, .lineComment, d⟩) ++ [⟨nl, .code, d⟩] ∧
      (mk .lineComment d none).after (xs ++ [nl]) = ⟨.code, d, none⟩ := by
  induction xs with
  | nil =>
    have hread : (mk .lineComment d none).read nl [] = (.code, ⟨.code, d, none⟩) := by
      rw [read, hnl]
      rfl
    rw [List.nil_append, run, after, hread]
    exact ⟨rfl, rfl⟩
  | cons x xs ih =>
    rw [List.forall_mem_cons] at hxs
    obtain ⟨hrun, hafter⟩ := ih hxs.2
    have hread : (mk .lineComment d none).read x (xs ++ [nl]) = (.lineComment, ⟨.lineComment, d, none⟩) := by
      unfold read step
      cases hm : Marked.mark x with
      | newline => exact absurd hm hxs.1
      | _ => rfl
    rw [List.cons_append, run, after, hread, hrun, hafter]
    exact ⟨rfl, rfl⟩

/-- In code a line comment is told as such up to its line feed, and the scan goes on as before it. -/
theorem run_commentLine (d : Nat) {a b nl : α} (ha : Marked.mark a = .slash) (hb : Marked.mark b = .slash)
    (hnl : Marked.mark nl = .newline) (hxs : ∀ x ∈ xs, Marked.mark x ≠ .newline) :
    (mk .code d none).run (a :: b :: (xs ++ [nl])) =
        (a :: b :: xs).map (fun x => ⟨x, .lineComment, d⟩) ++ [⟨nl, .code, d⟩] ∧
      (mk .code d none).after (a :: b :: (xs ++ [nl])) = ⟨.code, d, none⟩ := by
  have hread : (mk .code d none).read a (b :: (xs ++ [nl])) = (.lineComment, ⟨.lineComment, d, none⟩) := by
    rw [read, List.head?_cons, Option.map_some, ha, hb]
    rfl
  have hinside : ∀ x ∈ b :: xs, Marked.mark x ≠ .newline := by
    rw [List.forall_mem_cons]
    exact ⟨by rw [hb]; decide, hxs⟩
  obtain ⟨hrun, hafter⟩ := run_inComment d hnl hinside
  rw [run, after, hread]
  rw [List.cons_append] at hrun hafter
  rw [hrun, hafter]
  exact ⟨rfl, rfl⟩

/-- Behind a line feed no letter is settled ahead. -/
theorem carry_after_newline {nl : α} (hnl : Marked.mark nl = .newline) (s : Scanner) (xs : List α) :
    (s.after (xs ++ [nl])).carry = none := by
  induction xs generalizing s with
  | nil =>
    obtain ⟨z, d, k⟩ := s
    rw [List.nil_append, after, after, read, hnl]
    cases k with
    | some z' => rfl
    | none => cases z <;> rfl
  | cons x xs ih => exact ih _

end Scanner

/-! ## Members by the scan -/

theorem spotAt?_eq_scan (t : Text) (offset : Nat) :
    spotAt? t offset = (scan t.bytes)[offset]?.map fun x => x.spot offset := by
  rw [spotAt?_eq_getElem?, lexedSpots, scan_eq_counted, List.getElem?_mapIdx, getElem?_counted,
    Option.map_map]
  rfl

/-- Whether a member of a class can begin at a letter. -/
def Seen.isMember (x : Seen UInt8) : Bool := x.depth == 1 && x.zone.isCode

theorem isMemberAt_eq (t : Text) (offset : Nat) :
    isMemberAt t offset = (scan t.bytes)[offset]?.any Seen.isMember := by
  rw [isMemberAt, spotAt?_eq_scan]
  cases (scan t.bytes)[offset]? <;> rfl

end GoDraft
