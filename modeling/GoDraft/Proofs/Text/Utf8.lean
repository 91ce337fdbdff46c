import GoDraft.Text.Utf8
import Mathlib.Tactic.SplitIfs

/-!
# GoDraft — reading back UTF-8

The bytes of a text are read as the text. The first byte of a character tells how many bytes follow it and what the
second one can be; the others are bytes of six bits.

* `decodeFront_encode` — the bytes of one character;
* `Text.ofBytes?_bytes` — the bytes of a text.
-/

namespace GoDraft

/-! ## One character -/

/-- A byte of six bits, which stands behind the first byte of a character. -/
def sixBits (n : Nat) : UInt8 := UInt8.ofNat (n % 64 + 128)

theorem toNat_sixBits (n : Nat) : (sixBits n).toNat = n % 64 + 128 := by
  rw [sixBits, UInt8.toNat_ofNat', Nat.mod_eq_of_lt (by omega)]

/-- A byte within its bounds gives its six bits to the character. -/
theorem decodeRest_sixBits {value size low high n : Nat} (hlow : low ≤ n % 64 + 128) (hhigh : n % 64 + 128 ≤ high)
    (follow : Nat) (rest : List UInt8) :
    decodeRest value size low high (follow + 1) (sixBits n :: rest) =
      decodeRest (value * 64 + n % 64) (size + 1) 0x80 0xbf follow rest := by
  have hbits : (n % 64 + 128) % 64 = n % 64 := by omega
  rw [decodeRest, toNat_sixBits, if_pos ⟨hlow, hhigh⟩, hbits]

theorem decodeRest_next {value size : Nat} (n follow : Nat) (rest : List UInt8) :
    decodeRest value size 0x80 0xbf (follow + 1) (sixBits n :: rest) =
      decodeRest (value * 64 + n % 64) (size + 1) 0x80 0xbf follow rest :=
  decodeRest_sixBits (by omega) (by omega) follow rest

theorem decodeFront_of_continuation? {b : UInt8} {n follow low high : Nat} (hb : b.toNat = n) (hn : 0x80 ≤ n)
    (h : continuation? n = some (follow, low, high)) (rest : List UInt8) :
    decodeFront b rest = decodeRest (leadBits n follow) 1 low high follow rest := by
  rw [decodeFront, hb, if_neg (by omega), h]

/-- No character is a surrogate. -/
theorem toNat_bounds (c : Char) : c.toNat < 0xd800 ∨ 0xdfff < c.toNat ∧ c.toNat < 0x110000 := c.valid

/-- The second of three bytes is bounded such that nothing short and no surrogate is spelt. -/
theorem continuation?_of_three {n : Nat} (hlow : 0x800 ≤ n) (hhigh : n ≤ 0xffff) (h : n < 0xd800 ∨ 0xdfff < n) :
    ∃ low high, continuation? (n / 4096 + 224) = some (2, low, high) ∧ low ≤ n / 64 % 64 + 128 ∧
      n / 64 % 64 + 128 ≤ high := by
  unfold continuation?
  split_ifs
  all_goals first
    | omega
    | exact ⟨_, _, rfl, by omega, by omega⟩

theorem continuation?_of_four {n : Nat} (hlow : 0x10000 ≤ n) (hhigh : n < 0x110000) :
    ∃ low high, continuation? (n / 262144 + 240) = some (3, low, high) ∧ low ≤ n / 4096 % 64 + 128 ∧
      n / 4096 % 64 + 128 ≤ high := by
  unfold continuation?
  split_ifs
  all_goals first
    | omega
    | exact ⟨_, _, rfl, by omega, by omega⟩

/-- The bytes of a character are read as the character, whatever follows them. -/
theorem decodeFront_encode (c : Char) (rest : List UInt8) :
    ∃ b bs, String.utf8EncodeChar c = b :: bs ∧ decodeFront b (bs ++ rest) = .char c (bs.length + 1) := by
  have hc := toNat_bounds c
  have hval : c.val.toNat = c.toNat := rfl
  unfold String.utf8EncodeChar
  rw [hval]
  dsimp only
  -- one case for each number of bytes: the first byte says how many follow, each with six bits
  split_ifs with hone htwo hthree
  · refine ⟨_, _, rfl, ?_⟩
    rw [decodeFront, UInt8.toNat_ofNat', Nat.mod_eq_of_lt (by omega), if_pos (by omega), Char.ofNat_toNat]
    rfl
  · refine ⟨_, _, rfl, ?_⟩
    have hb : (UInt8.ofNat (c.toNat / 64 % 32 + 192)).toNat = c.toNat / 64 + 192 := by
      rw [UInt8.toNat_ofNat']
      omega
    have hfollow : continuation? (c.toNat / 64 + 192) = some (1, 0x80, 0xbf) := if_pos (by omega)
    have hvalue : (c.toNat / 64 + 192) % 2 ^ 5 * 64 + c.toNat % 64 = c.toNat := by omega
    rw [decodeFront_of_continuation? hb (by omega) hfollow]
    refine (decodeRest_next c.toNat 0 rest).trans ?_
    show Decoded.char (Char.ofNat ((c.toNat / 64 + 192) % 2 ^ 5 * 64 + c.toNat % 64)) 2 = .char c 2
    rw [hvalue, Char.ofNat_toNat]
  · refine ⟨_, _, rfl, ?_⟩
    have hb : (UInt8.ofNat (c.toNat / 4096 % 16 + 224)).toNat = c.toNat / 4096 + 224 := by
      rw [UInt8.toNat_ofNat']
      omega
    obtain ⟨low, high, hfollow, hlow, hhigh⟩ := @continuation?_of_three c.toNat (by omega) hthree (by omega)
    have hvalue : ((c.toNat / 4096 + 224) % 2 ^ 4 * 64 + c.toNat / 64 % 64) * 64 + c.toNat % 64 = c.toNat := by omega
    rw [decodeFront_of_continuation? hb (by omega) hfollow]
    refine (decodeRest_sixBits hlow hhigh 1 _).trans ((decodeRest_next c.toNat 0 rest).trans ?_)
    show Decoded.char (Char.ofNat (((c.toNat / 4096 + 224) % 2 ^ 4 * 64 + c.toNat / 64 % 64) * 64 + c.toNat % 64)) 3 =
      .char c 3
    rw [hvalue, Char.ofNat_toNat]
  · refine ⟨_, _, rfl, ?_⟩
    have hb : (UInt8.ofNat (c.toNat / 262144 % 8 + 240)).toNat = c.toNat / 262144 + 240 := by
      rw [UInt8.toNat_ofNat']
      omega
    obtain ⟨low, high, hfollow, hlow, hhigh⟩ := @continuation?_of_four c.toNat (by omega) (by omega)
    have hvalue : (((c.toNat / 262144 + 240) % 2 ^ 3 * 64 + c.toNat / 4096 % 64) * 64 + c.toNat / 64 % 64) * 64 +
        c.toNat % 64 = c.toNat := by omega
    rw [decodeFront_of_continuation? hb (by omega) hfollow]
    refine (decodeRest_sixBits hlow hhigh 2 _).trans ((decodeRest_next (c.toNat / 64) 1 _).trans
      ((decodeRest_next c.toNat 0 rest).trans ?_))
    show Decoded.char (Char.ofNat ((((c.toNat / 262144 + 240) % 2 ^ 3 * 64 + c.toNat / 4096 % 64) * 64 +
      c.toNat / 64 % 64) * 64 + c.toNat % 64)) 4 = .char c 4
    rw [hvalue, Char.ofNat_toNat]

/-! ## Texts -/

namespace Text

theorem decodeFrom_append (bs rest : List UInt8) : decodeFrom bs.length (bs ++ rest) = decodeFrom 0 rest := by
  induction bs with
  | nil => rfl
  | cons b bs ih => exact ih

theorem decodeFrom_bytes (t : Text) : decodeFrom 0 t.bytes = t.map some := by
  induction t with
  | nil => rfl
  | cons c t ih =>
    obtain ⟨b, bs, hbytes, hfront⟩ := decodeFront_encode c (bytes t)
    rw [bytes, List.flatMap_cons, ← bytes, hbytes, List.cons_append, decodeFrom, hfront]
    show some c :: decodeFrom bs.length (bs ++ bytes t) = _
    rw [decodeFrom_append, ih]
    rfl

/-- **Texts read back**: the bytes of a text are read as the text. -/
theorem ofBytes?_bytes (t : Text) : ofBytes? t.bytes = some t := by
  rw [ofBytes?, decodeFrom_bytes, List.mapM_map]
  exact (List.mapM_pure (f := id)).trans (by rw [List.map_id]; rfl)

end Text

end GoDraft
