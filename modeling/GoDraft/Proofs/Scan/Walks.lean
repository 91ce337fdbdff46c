import GoDraft.Proofs.Scan.Blocks
import GoDraft.Proofs.Scan.Lines

/-!
# GoDraft — walking through parts of a text

Where every literal and every block of a part is closed in it, a scan that comes to the part in code leaves
it in code as well, and at the same depth. What the scan sees in the part then hangs on the part alone,
whatever follows, so a text can be scanned part by part.

* `Walks` — the scan goes through a part, from one depth to another;
* `walks_quiet`, `walks_literal` — parts without braces and quotes, and string literals;
* `WalksInside` — the scan goes through a part without leaving the block that the part is in;
* `Walks.isMemberAt_of_isQuiet`, `WalksInside.not_isMemberAt` — where a member can begin;
* `WalksInside.matchingBrace?_eq` — the end of a block.
-/

namespace GoDraft

/-! ## Letters that leave the state as it is -/

/-- Letters that do not change the state are seen in one zone. -/
theorem Scanner.run_steady {α : Type} [Marked α] {s : Scanner} {z : Zone} {xs : List α}
    (h : ∀ x ∈ xs, ∀ next, s.step (Marked.mark x) next = (z, s)) (rest : List α) :
    s.run (xs ++ rest) = xs.map (fun x => ⟨x, z, s.depth⟩) ++ s.run rest := by
  induction xs with
  | nil => rfl
  | cons x xs ih =>
    rw [List.forall_mem_cons] at h
    rw [List.cons_append, run, read, h.1, ih h.2]
    rfl

/-- Whether a mark leaves the scanner in code at the same depth. -/
def Mark.isQuiet : Mark → Bool
  | .quote _ | .slash | .openBrace | .closeBrace => false
  | _ => true

/-- Text without quotes, slashes and braces. -/
def IsQuiet (t : Text) : Prop := ∀ c ∈ t, (Marked.mark c : Mark).isQuiet = true

instance (t : Text) : Decidable (IsQuiet t) := Text.decidableForallMem t _

/-- Whether a mark leaves the scanner in a string literal. -/
def Mark.staysLiteral : Mark → Bool
  | .quote .double | .backslash | .newline => false
  | _ => true

theorem step_of_isQuiet {m : Mark} (h : m.isQuiet = true) (d : Nat) (next : Option Mark) :
    (Scanner.mk .code d none).step m next = (.code, ⟨.code, d, none⟩) := by
  cases m <;> first | rfl | exact absurd h Bool.false_ne_true

theorem step_of_staysLiteral {m : Mark} (h : m.staysLiteral = true) (d : Nat) (next : Option Mark) :
    (Scanner.mk (.literal .double) d none).step m next =
      (.literal .double, ⟨.literal .double, d, none⟩) := by
  cases m with
  | quote q =>
    cases q with
    | double => exact absurd h Bool.false_ne_true
    | single => rfl
  | backslash => exact absurd h Bool.false_ne_true
  | newline => exact absurd h Bool.false_ne_true
  | _ => rfl

/-- Only a double quote, a backslash or a line feed can end or bend a string literal. -/
theorem staysLiteral_of_not_mem {c : Char} (h : c ∉ "\"\\\n".toList) :
    (Marked.mark c : Mark).staysLiteral = true := by
  have hmark : ∀ n < 128, (Mark.ofCode n).staysLiteral = false → Char.ofNat n ∈ "\"\\\n".toList := by decide
  by_contra hstop
  rw [Bool.not_eq_true] at hstop
  have hlow : c.toNat < 128 := by
    by_contra hhigh
    have hplain : (Marked.mark c : Mark) = .plain := by
      show Mark.ofCode c.toNat = .plain
      rw [Mark.ofCode]
      repeat rw [if_neg (by omega)]
    rw [hplain] at hstop
    exact absurd hstop (by decide)
  have hmem := hmark c.toNat hlow hstop
  rw [Char.ofNat_toNat] at hmem
  exact h hmem

/-- What holds of the marks of the characters of a text, and of none, holds of the marks of its bytes. -/
theorem Text.forall_mark_bytes {p : Mark → Bool} (hplain : p .plain = true) {t : Text}
    (h : ∀ c ∈ t, p (Marked.mark c) = true) : ∀ b ∈ t.bytes, p (Marked.mark b) = true := by
  intro b hb
  rcases mark_of_mem_bytes hb with ⟨c, hc, hmark⟩ | hmark
  · rw [hmark]
    exact h c hc
  · rw [hmark]
    exact hplain

/-! ## Walks -/

/-- From code at depth `d` the scanner goes through a text to code at depth `d'`, whatever follows, and
`seen` is what it sees on the way. -/
def Walks (d : Nat) (t : Text) (d' : Nat) (seen : List (Seen UInt8)) : Prop :=
  ∀ rest : List UInt8, (Scanner.mk .code d none).run (t.bytes ++ rest) =
    seen ++ (Scanner.mk .code d' none).run rest

section Walks

variable {d d' d'' : Nat} {s t u v : Text} {xs ys : List (Seen UInt8)}

theorem Walks.length (h : Walks d t d' xs) : xs.length = t.size := by
  have hall := congrArg List.length (h [])
  rw [List.append_nil, Scanner.length_run, Text.length_bytes, Scanner.run, List.append_nil] at hall
  exact hall.symm

theorem Walks.append (hs : Walks d s d' xs) (ht : Walks d' t d'' ys) : Walks d (s ++ t) d'' (xs ++ ys) := by
  intro rest
  rw [Text.bytes_append, List.append_assoc, hs, ht, List.append_assoc]

theorem walks_quiet (h : IsQuiet t) (d : Nat) :
    Walks d t d (t.bytes.map fun b => ⟨b, .code, d⟩) := by
  intro rest
  apply Scanner.run_steady
  intro b hb
  exact step_of_isQuiet (Text.forall_mark_bytes rfl h b hb) d

theorem walks_openBrace (d : Nat) : Walks d ['{'] (d + 1) [⟨openBraceByte, .code, d⟩] := fun _ => rfl

theorem walks_closeBrace (d : Nat) : Walks (d + 1) ['}'] d [⟨closeBraceByte, .code, d + 1⟩] := fun _ => rfl

/-- A string literal without escapes. -/
theorem walks_literal (h : ∀ c ∈ t, (Marked.mark c : Mark).staysLiteral = true) (d : Nat) :
    Walks d ('"' :: (t ++ ['"'])) d
      ((Text.bytes ('"' :: (t ++ ['"']))).map fun b => ⟨b, .literal .double, d⟩) := by
  intro rest
  have hcontent : ∀ b ∈ t.bytes, ∀ next, (Scanner.mk (.literal .double) d none).step (Marked.mark b) next =
      (.literal .double, ⟨.literal .double, d, none⟩) :=
    fun b hb => step_of_staysLiteral (Text.forall_mark_bytes rfl h b hb) d
  have hbytes : Text.bytes ('"' :: (t ++ ['"'])) = 0x22 :: (t.bytes ++ [0x22]) := by
    rw [← List.singleton_append, Text.bytes_append, Text.bytes_append]
    rfl
  have hclose : (Scanner.mk (.literal .double) d none).run ((0x22 : UInt8) :: rest) =
      ⟨0x22, .literal .double, d⟩ :: (Scanner.mk .code d none).run rest := rfl
  have hopen : (Scanner.mk .code d none).run ((0x22 : UInt8) :: (t.bytes ++ (0x22 :: rest))) =
      ⟨0x22, .literal .double, d⟩ :: (Scanner.mk (.literal .double) d none).run (t.bytes ++ (0x22 :: rest)) :=
    rfl
  rw [hbytes, List.cons_append, List.append_assoc, List.singleton_append, hopen,
    Scanner.run_steady hcontent, hclose]
  simp

/-- What stands behind a part that the scan walks through is seen in code at the depth there. -/
theorem Walks.getElem?_scan (hu : Walks 0 u d xs) (v : Text) (i : Nat) :
    (scan (Text.bytes (u ++ v)))[u.size + i]? = ((Scanner.mk .code d none).run v.bytes)[i]? := by
  have hscan : scan (Text.bytes (u ++ v)) = xs ++ (Scanner.mk .code d none).run v.bytes := by
    rw [Text.bytes_append]
    exact hu v.bytes
  rw [hscan, ← hu.length, List.getElem?_append_right (Nat.le_add_right _ _), Nat.add_sub_cancel_left]

/-- A member can begin behind a part that ends in code at depth one. -/
theorem Walks.isMemberAt_of_isQuiet (hu : Walks 0 u 1 xs) {c : Char} (hc : (Marked.mark c : Mark).isQuiet = true) :
    isMemberAt (u ++ c :: v) u.size = true := by
  have hwalk := walks_quiet (t := [c]) (fun e he => by rwa [List.mem_singleton.mp he]) 1
  obtain ⟨b, bs, hbytes⟩ : ∃ b bs, Text.bytes [c] = b :: bs := by
    apply List.exists_cons_of_ne_nil
    intro hnil
    have hlength := Text.length_bytes [c]
    rw [hnil] at hlength
    exact absurd (Text.size_eq_zero_iff.mp hlength.symm) (List.cons_ne_nil c [])
  have hrun : (Scanner.mk .code 1 none).run (Text.bytes (c :: v)) =
      ⟨b, .code, 1⟩ :: (bs.map (fun b => ⟨b, .code, 1⟩) ++ (Scanner.mk .code 1 none).run v.bytes) := by
    have hwalk := hwalk v.bytes
    rw [← Text.bytes_append, hbytes] at hwalk
    exact hwalk
  have hat := hu.getElem?_scan (c :: v) 0
  rw [Nat.add_zero, hrun] at hat
  rw [isMemberAt_eq, hat]
  rfl

end Walks

/-! ## Staying inside a block -/

/-- A byte is not less deep than `d`, and deeper if it is a closing brace. -/
def Seen.Inside (d : Nat) (x : Seen UInt8) : Prop := d ≤ x.depth ∧ (x.letter = closeBraceByte → d < x.depth)

/-- The scan goes through a text at depth `d` and does not leave the block that the text is in. -/
def WalksInside (d : Nat) (t : Text) : Prop := ∃ xs, Walks d t d xs ∧ ∀ x ∈ xs, x.Inside d

section WalksInside

variable {d : Nat} {s t u v w : Text}

theorem WalksInside.append (hs : WalksInside d s) (ht : WalksInside d t) : WalksInside d (s ++ t) := by
  obtain ⟨xs, hxs, hinside⟩ := hs
  obtain ⟨ys, hys, hinside'⟩ := ht
  exact ⟨xs ++ ys, hxs.append hys, List.forall_mem_append.mpr ⟨hinside, hinside'⟩⟩

theorem walksInside_quiet (h : IsQuiet t) (d : Nat) : WalksInside d t := by
  refine ⟨_, walks_quiet h d, fun x hx => ?_⟩
  obtain ⟨b, hb, rfl⟩ := List.mem_map.mp hx
  refine ⟨Nat.le_refl d, fun hclose => ?_⟩
  have hquiet := Text.forall_mark_bytes (p := Mark.isQuiet) rfl h b hb
  rw [(mark_eq_closeBrace_iff b).mpr hclose] at hquiet
  exact absurd hquiet Bool.false_ne_true

theorem Seen.Inside.mono {d e : Nat} {x : Seen UInt8} (h : x.Inside e) (hle : d ≤ e) : x.Inside d :=
  ⟨hle.trans h.1, fun hclose => hle.trans_lt (h.2 hclose)⟩

theorem WalksInside.block (h : WalksInside (d + 1) t) : WalksInside d ('{' :: (t ++ ['}'])) := by
  obtain ⟨xs, hxs, hinside⟩ := h
  refine ⟨_, (walks_openBrace d).append (hxs.append (walks_closeBrace d)), ?_⟩
  rw [List.singleton_append, List.forall_mem_cons, List.forall_mem_append, List.forall_mem_singleton]
  have hne : openBraceByte ≠ closeBraceByte := by decide
  refine ⟨⟨Nat.le_refl d, fun hclose => ?_⟩, fun x hx => (hinside x hx).mono (Nat.le_succ d), ?_⟩
  · exact absurd hclose hne
  · exact ⟨Nat.le_succ d, fun _ => Nat.lt_succ_self d⟩

/-- No member begins inside a block that is itself inside another. -/
theorem WalksInside.not_isMemberAt {xs : List (Seen UInt8)} (hu : Walks 0 u d xs) (hd : 1 < d)
    (h : WalksInside d (s ++ t)) (ht : t ≠ []) : isMemberAt (u ++ ((s ++ t) ++ v)) (u ++ s).size = false := by
  obtain ⟨ys, hys, hinside⟩ := h
  have hrun : (Scanner.mk .code d none).run (Text.bytes ((s ++ t) ++ v)) =
      ys ++ (Scanner.mk .code d none).run v.bytes := by
    rw [Text.bytes_append]
    exact hys v.bytes
  have hlt : s.size < ys.length := by
    have hpos : t.size ≠ 0 := fun h0 => ht (Text.size_eq_zero_iff.mp h0)
    rw [hys.length, Text.size_append]
    omega
  rw [isMemberAt_eq, Text.size_append, hu.getElem?_scan, hrun, List.getElem?_append_left hlt,
    List.getElem?_eq_getElem hlt, Option.any_some, Seen.isMember]
  have hdeep := (hinside _ (List.getElem_mem hlt)).1
  have hne : ys[s.size].depth ≠ 1 := by omega
  simp [hne]

/-- The block that a brace opens ends behind text that stays inside it. -/
theorem WalksInside.matchingBrace?_eq (u : Text) (h : WalksInside 1 t) (v : Text) :
    matchingBrace? (u ++ '{' :: (t ++ '}' :: v)) u.size = some (u.size + (1 + t.size)) := by
  obtain ⟨xs, hxs, hinside⟩ := h
  have hblock : (Text.bytes (u ++ '{' :: (t ++ '}' :: v))).drop u.size =
      openBraceByte :: (t.bytes ++ closeBraceByte :: v.bytes) := by
    have hbrace : Text.bytes ('{' :: (t ++ '}' :: v)) = openBraceByte :: (t.bytes ++ closeBraceByte :: v.bytes) := by
      have hclose : Text.bytes ('}' :: v) = closeBraceByte :: v.bytes := rfl
      rw [← hclose, ← Text.bytes_append]
      rfl
    rw [Text.bytes_append, ← Text.length_bytes u, List.drop_left, hbrace]
  have hscan : scan (openBraceByte :: (t.bytes ++ closeBraceByte :: v.bytes)) =
      ⟨openBraceByte, .code, 0⟩ :: (xs ++ ⟨closeBraceByte, .code, 1⟩ :: (Scanner.mk .code 0 none).run v.bytes) := by
    have hrun := hxs (closeBraceByte :: v.bytes)
    exact congrArg (_ :: ·) hrun
  -- every closing brace of the text closes something that was opened in it
  have hnone : ∀ x ∈ xs, (x.letter == closeBraceByte && x.zone.isCode && x.depth == 1) = false := by
    intro x hx
    by_cases hclose : x.letter = closeBraceByte
    · have hdeep := (hinside x hx).2 hclose
      have hne : x.depth ≠ 1 := by omega
      simp [hne]
    · simp [hclose]
  have hopen : (openBraceByte == closeBraceByte) = false := by decide
  rw [matchingBrace?, hblock, List.head?_cons, if_pos rfl, hscan, List.findIdx?_cons, hopen, Bool.false_and,
    Bool.false_and, if_neg Bool.false_ne_true, List.findIdx?_append, List.findIdx?_eq_none_iff.mpr hnone,
    List.findIdx?_cons]
  simp [hxs.length, Zone.isCode, Nat.add_comm]

end WalksInside

end GoDraft
