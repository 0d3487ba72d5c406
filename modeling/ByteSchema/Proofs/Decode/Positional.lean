import Mathlib.Algebra.Order.Ring.Int
import Mathlib.Algebra.Order.Ring.Nat
import Mathlib.Data.Int.ModEq
import ByteSchema.Proofs.Decode.Reads

/-!
# Integers of a fixed width

`encode` lays out a number as its digits in base 256, and `readUInt` and `readInt` read it back:
`integers_read_back`. The numbers are also those of words of 64 bits, into which the bytes are
shifted one after the other and whose sign is spread by shifting to the top and back.
-/

namespace ByteSchema

namespace Cursor

/-! ### Digits -/

/-- The `n` digits of `v` in base 256, the least significant first. -/
def digits (n v : Nat) : List UInt8 :=
  (List.range n).map fun i => UInt8.ofNat (v / 2 ^ (8 * i) % 256)

def encode (order : ByteOrder) (n v : Nat) : List UInt8 :=
  match order with
  | .little => digits n v
  | .big => (digits n v).reverse

/-- The two's complement of `s` in `n` bytes. -/
def encodeInt (order : ByteOrder) (n : Nat) (s : Int) : List UInt8 :=
  encode order n (s % 2 ^ (8 * n)).toNat

theorem digits_succ (n v : Nat) :
    digits (n + 1) v = UInt8.ofNat (v % 256) :: digits n (v / 256) := by
  rw [digits, List.range_succ_eq_map, List.map_cons, List.map_map]
  refine congrArg₂ List.cons (by rw [Nat.mul_zero, Nat.pow_zero, Nat.div_one]) ?_
  refine List.map_congr_left fun i _ => ?_
  have next : v / 2 ^ (8 * (i + 1)) = v / 256 / 2 ^ (8 * i) := by
    rw [Nat.div_div_eq_div_mul, Nat.mul_add, Nat.add_comm, Nat.pow_add]
  exact congrArg (fun d => UInt8.ofNat (d % 256)) next

theorem length_encode (order : ByteOrder) (n v : Nat) : (encode order n v).length = n := by
  cases order <;> simp [encode, digits]

theorem toNat_little_cons (b : UInt8) (bytes : List UInt8) :
    toNat .little (b :: bytes) = toNat .little bytes * 256 + b.toNat := by
  simp [toNat, bigEndian]

theorem foldl_digits (bytes : List UInt8) (acc : Nat) :
    bytes.foldl (fun acc b => acc * 256 + b.toNat) acc =
      acc * 2 ^ (8 * bytes.length) + toNat .big bytes := by
  induction bytes generalizing acc with
  | nil => simp [toNat, bigEndian]
  | cons b bytes ih =>
    have power : 2 ^ (8 * (bytes.length + 1)) = 256 * 2 ^ (8 * bytes.length) := by
      rw [Nat.mul_add, Nat.add_comm, Nat.pow_add]
    rw [toNat, bigEndian, List.foldl_cons, List.foldl_cons, ih, ih, List.length_cons, power,
      Nat.zero_mul, Nat.zero_add, Nat.add_mul, Nat.mul_assoc, Nat.add_assoc]

theorem toNat_big_cons (b : UInt8) (bytes : List UInt8) :
    toNat .big (b :: bytes) = b.toNat * 2 ^ (8 * bytes.length) + toNat .big bytes := by
  rw [← foldl_digits, toNat, bigEndian, List.foldl_cons, Nat.zero_mul, Nat.zero_add]

theorem toNat_digits (n v : Nat) : toNat .little (digits n v) = v % 2 ^ (8 * n) := by
  induction n generalizing v with
  | zero =>
    rw [Nat.mul_zero, Nat.pow_zero, Nat.mod_one]
    rfl
  | succ n ih =>
    have byte : (UInt8.ofNat (v % 256)).toNat = v % 256 :=
      UInt8.toNat_ofNat_of_lt' (Nat.mod_lt v (by decide))
    have power : 2 ^ (8 * (n + 1)) = 256 * 2 ^ (8 * n) := by
      rw [Nat.mul_add, Nat.add_comm, Nat.pow_add]
    rw [digits_succ, toNat_little_cons, ih, byte, power, Nat.mod_mul]
    omega

theorem toNat_encode {n v : Nat} (order : ByteOrder) (h : v < 2 ^ (8 * n)) :
    toNat order (encode order n v) = v := by
  have little : toNat .little (digits n v) = v := by rw [toNat_digits, Nat.mod_eq_of_lt h]
  cases order
  · exact little
  · exact little

theorem digits_toNat (bytes : List UInt8) :
    digits bytes.length (toNat .little bytes) = bytes := by
  induction bytes with
  | nil => rfl
  | cons b bytes ih =>
    have low : b.toNat < 256 := b.toNat_lt
    have last : (toNat .little bytes * 256 + b.toNat) % 256 = b.toNat := by omega
    have others : (toNat .little bytes * 256 + b.toNat) / 256 = toNat .little bytes := by omega
    rw [List.length_cons, digits_succ, toNat_little_cons, last, others, ih, UInt8.ofNat_toNat]

theorem encode_toNat (order : ByteOrder) (bytes : List UInt8) :
    encode order bytes.length (toNat order bytes) = bytes := by
  cases order with
  | little => exact digits_toNat bytes
  | big =>
    have reversed := digits_toNat bytes.reverse
    rw [List.length_reverse, toNat, List.reverse_reverse] at reversed
    rw [encode, toNat, reversed, List.reverse_reverse]

theorem toNat_lt (order : ByteOrder) (bytes : List UInt8) :
    toNat order bytes < 2 ^ (8 * bytes.length) := by
  have little (bytes : List UInt8) : toNat .little bytes < 2 ^ (8 * bytes.length) := by
    have whole := toNat_digits bytes.length (toNat .little bytes)
    rw [digits_toNat] at whole
    rw [whole]
    exact Nat.mod_lt _ (Nat.two_pow_pos _)
  cases order with
  | little => exact little bytes
  | big =>
    have reversed := little bytes.reverse
    rwa [List.length_reverse, toNat, List.reverse_reverse] at reversed

/-! ### Words -/

def shiftIn (word : UInt64) (b : UInt8) : UInt64 := word <<< 8 ||| b.toUInt64

/-- The word into which the bytes are shifted, the most significant first. -/
def toWord (order : ByteOrder) (bytes : List UInt8) : UInt64 :=
  match order with
  | .big => bytes.foldl shiftIn 0
  | .little => bytes.reverse.foldl shiftIn 0

/-- The sign of the low `n` bytes is spread over the bytes above. -/
def signed (n : Nat) (word : UInt64) : Int64 :=
  (word <<< UInt64.ofNat (64 - 8 * n)).toInt64 >>> Int64.ofNat (64 - 8 * n)

theorem toNat_shiftIn {word : UInt64} (b : UInt8) (room : word.toNat < 2 ^ 56) :
    (shiftIn word b).toNat = word.toNat * 256 + b.toNat := by
  have low : b.toNat < 2 ^ 8 := b.toNat_lt
  have shifted : (word <<< 8).toNat = word.toNat <<< 8 := by
    rw [UInt64.toNat_shiftLeft]
    refine Nat.mod_eq_of_lt ?_
    rw [show (8 : UInt64).toNat % 64 = 8 from rfl, Nat.shiftLeft_eq]
    omega
  rw [shiftIn, UInt64.toNat_or, shifted, UInt8.toNat_toUInt64, ← Nat.shiftLeft_add_eq_or_of_lt low,
    Nat.shiftLeft_eq]

theorem toNat_foldl_shiftIn (bytes : List UInt8) (word : UInt64) (few : bytes.length ≤ 8)
    (room : word.toNat < 2 ^ (8 * (8 - bytes.length))) :
    (bytes.foldl shiftIn word).toNat =
      bytes.foldl (fun acc b => acc * 256 + b.toNat) word.toNat := by
  induction bytes generalizing word with
  | nil => rfl
  | cons b bytes ih =>
    rw [List.length_cons] at few room
    have low : b.toNat < 256 := b.toNat_lt
    have step : 8 * (8 - bytes.length) = 8 * (8 - (bytes.length + 1)) + 8 := by omega
    have small : word.toNat < 2 ^ 56 :=
      Nat.lt_of_lt_of_le room (Nat.pow_le_pow_right (by decide) (by omega))
    have next := toNat_shiftIn b small
    rw [List.foldl_cons, List.foldl_cons, ih _ (by omega) (by rw [next, step, Nat.pow_add]; omega),
      next]

theorem toNat_toWord (order : ByteOrder) {bytes : List UInt8} (few : bytes.length ≤ 8) :
    (toWord order bytes).toNat = toNat order bytes := by
  have zero (n : Nat) : (0 : UInt64).toNat < 2 ^ n := Nat.two_pow_pos n
  cases order with
  | big => exact toNat_foldl_shiftIn bytes 0 few (zero _)
  | little => exact toNat_foldl_shiftIn bytes.reverse 0 (by rwa [List.length_reverse]) (zero _)

/-- Shifted to the top of a word and back, a number of `w` bits keeps the sign it has in these. -/
theorem toInt_spread {w k : Nat} {x : BitVec 64} (whole : w + k = 64) (h : x.toNat < 2 ^ w) :
    ((x <<< k).sshiftRight k).toInt = (BitVec.ofNat w x.toNat).toInt := by
  have top : 2 ^ 64 = 2 ^ w * 2 ^ k := by rw [← Nat.pow_add, whole]
  have fits : x.toNat * 2 ^ k < 2 ^ 64 := by
    rw [top]
    exact Nat.mul_lt_mul_of_pos_right h (Nat.two_pow_pos k)
  have shifted : (x <<< k).toNat = x.toNat * 2 ^ k := by
    rw [BitVec.toNat_shiftLeft, Nat.shiftLeft_eq, Nat.mod_eq_of_lt fits]
  have sign : 2 * (x.toNat * 2 ^ k) < 2 ^ 64 ↔ 2 * x.toNat < 2 ^ w := by
    rw [top, ← Nat.mul_assoc]
    exact Nat.mul_lt_mul_right (Nat.two_pow_pos k)
  have back (y : Int) : (y * (2 ^ k : Nat)) >>> k = y := by
    rw [Int.shiftRight_eq_div_pow]
    exact Int.mul_ediv_cancel y (by exact_mod_cast (Nat.two_pow_pos k).ne')
  rw [BitVec.toInt_sshiftRight, BitVec.toInt_eq_toNat_cond, BitVec.toInt_eq_toNat_cond, shifted,
    BitVec.toNat_ofNat, Nat.mod_eq_of_lt h]
  simp only [sign]
  split
  · rw [Int.natCast_mul, back]
  · have factored : ((x.toNat * 2 ^ k : Nat) : Int) - (2 ^ 64 : Nat) =
        ((x.toNat : Int) - (2 ^ w : Nat)) * (2 ^ k : Nat) := by
      rw [top, Int.natCast_mul, Int.natCast_mul, Int.sub_mul]
    rw [factored, back]

theorem toInt_signed {n : Nat} {word : UInt64} (pos : 1 ≤ n) (few : n ≤ 8)
    (h : word.toNat < 2 ^ (8 * n)) :
    (signed n word).toInt = (BitVec.ofNat (8 * n) word.toNat).toInt := by
  have unused : 64 - 8 * n < 64 := by omega
  have left : ∀ k < 64, ((UInt64.ofNat k).toBitVec % 64).toNat = k := by decide
  have right : ∀ k < 64, ((Int64.ofNat k).toBitVec.smod 64).toNat = k := by decide
  calc (signed n word).toInt
    _ = ((word.toBitVec <<< (64 - 8 * n)).sshiftRight (64 - 8 * n)).toInt := by
      rw [signed, ← Int64.toInt_toBitVec, Int64.toBitVec_shiftRight, BitVec.sshiftRight',
        right _ unused, UInt64.toBitVec_toInt64, UInt64.toBitVec_shiftLeft, BitVec.shiftLeft_eq',
        left _ unused]
    _ = (BitVec.ofNat (8 * n) word.toNat).toInt := toInt_spread (by omega) h

/-! ### Two's complement -/

theorem toNat_residue (w : Nat) (s : Int) :
    (s % 2 ^ w).toNat < 2 ^ w ∧ ((s % 2 ^ w).toNat : Int) = s % (2 ^ w : Nat) := by
  have power : ((2 ^ w : Nat) : Int) = 2 ^ w := Int.natCast_pow 2 w
  have positive : (0 : Int) < (2 ^ w : Nat) := Int.natCast_pos.mpr (Nat.two_pow_pos w)
  have nonneg := Int.emod_nonneg s positive.ne'
  have below := Int.emod_lt_of_pos s positive
  rw [← power]
  omega

theorem toInt_complement {w : Nat} {s : Int} (pos : 0 < w) (low : -2 ^ (w - 1) ≤ s)
    (high : s < 2 ^ (w - 1)) : (BitVec.ofNat w (s % 2 ^ w).toNat).toInt = s := by
  calc (BitVec.ofNat w (s % 2 ^ w).toNat).toInt
    _ = (s % (2 ^ w : Nat)).bmod (2 ^ w) := by rw [BitVec.toInt_ofNat', (toNat_residue w s).2]
    _ = (BitVec.ofInt w s).toInt := by rw [Int.emod_bmod, BitVec.toInt_ofInt]
    _ = s := BitVec.toInt_ofInt_eq_self pos low high

theorem toInt_modEq (w v : Nat) : (BitVec.ofNat w v).toInt ≡ v [ZMOD 2 ^ w] := by
  have residue := @Int.bmod_emod v (2 ^ w)
  rw [Int.natCast_pow] at residue
  rw [BitVec.toInt_ofNat']
  exact residue

/-! ### Reads -/

/-- The cursor behind the bytes `front`, with the bytes `rest` to come. -/
def behind (front rest : List UInt8) (order : ByteOrder) : Cursor :=
  ⟨front ++ rest, front.length, order⟩

theorem rest_behind (front rest : List UInt8) (order : ByteOrder) :
    (behind front rest order).rest = rest :=
  List.drop_left

theorem readUInt_of_front {c : Cursor} {bytes after : List UInt8} (h : c.rest = bytes ++ after)
    (pos : 1 ≤ bytes.length) (few : bytes.length ≤ 8) :
    c.readUInt bytes.length = .ok (toNat c.order bytes, c.advance bytes.length) := by
  rw [readUInt, if_pos ⟨pos, few⟩, take_of_front h]
  rfl

theorem readInt_of_readUInt {c next : Cursor} {n v : Nat} (h : c.readUInt n = .ok (v, next)) :
    c.readInt n = .ok ((BitVec.ofNat (8 * n) v).toInt, next) := by
  rw [readInt, h]
  rfl

theorem readUInt_encode {c : Cursor} {n v : Nat} {after : List UInt8} (pos : 1 ≤ n) (few : n ≤ 8)
    (h : v < 2 ^ (8 * n)) (hrest : c.rest = encode c.order n v ++ after) :
    c.readUInt n = .ok (v, c.advance n) := by
  have width := length_encode c.order n v
  have read := readUInt_of_front hrest (by rwa [width]) (by rwa [width])
  rwa [width, toNat_encode c.order h] at read

theorem readInt_encodeInt {c : Cursor} {n : Nat} {s : Int} {after : List UInt8} (pos : 1 ≤ n)
    (few : n ≤ 8) (low : -2 ^ (8 * n - 1) ≤ s) (high : s < 2 ^ (8 * n - 1))
    (hrest : c.rest = encodeInt c.order n s ++ after) : c.readInt n = .ok (s, c.advance n) := by
  have read := readInt_of_readUInt (readUInt_encode pos few (toNat_residue (8 * n) s).1 hrest)
  rwa [toInt_complement (by omega) low high] at read

end Cursor

open Cursor

/-- For widths from 1 to 8: a number is read back from its encoding in either order, as is a signed
one from its two's complement; the two orders read the same from reversed bytes; and whatever the
bytes are, the signed number is the unsigned one up to a multiple of `2 ^ (8 * n)`, and both are
what shifts of words give. -/
theorem integers_read_back {n : Nat} (pos : 1 ≤ n) (few : n ≤ 8) :
    (∀ (order : ByteOrder) (v : Nat) (front after : List UInt8), v < 2 ^ (8 * n) →
      let c := behind front (encode order n v ++ after) order
      c.readUInt n = .ok (v, c.advance n)) ∧
    (∀ bytes front after front' after' : List UInt8, bytes.length = n →
      let c := behind front (bytes ++ after) .little
      let d := behind front' (bytes.reverse ++ after') .big
      ∃ v, c.readUInt n = .ok (v, c.advance n) ∧ d.readUInt n = .ok (v, d.advance n)) ∧
    (∀ (order : ByteOrder) (s : Int) (front after : List UInt8),
      -2 ^ (8 * n - 1) ≤ s → s < 2 ^ (8 * n - 1) →
      let c := behind front (encodeInt order n s ++ after) order
      c.readInt n = .ok (s, c.advance n)) ∧
    ∀ c : Cursor, n ≤ c.remaining → ∃ (v : Nat) (i : Int),
      c.readUInt n = .ok (v, c.advance n) ∧ c.readInt n = .ok (i, c.advance n) ∧
      i ≡ v [ZMOD 2 ^ (8 * n)] ∧ -2 ^ (8 * n - 1) ≤ i ∧ i < 2 ^ (8 * n - 1) ∧
      v = (toWord c.order (c.rest.take n)).toNat ∧
      i = (signed n (toWord c.order (c.rest.take n))).toInt := by
  refine ⟨fun order v front after h => readUInt_encode pos few h (rest_behind _ _ _), ?_,
    fun order s front after low high => readInt_encodeInt pos few low high (rest_behind _ _ _), ?_⟩
  · rintro bytes front after front' after' rfl
    have little := readUInt_of_front (rest_behind front (bytes ++ after) .little) pos few
    have big := readUInt_of_front (rest_behind front' (bytes.reverse ++ after') .big)
      (by rwa [List.length_reverse]) (by rwa [List.length_reverse])
    rw [List.length_reverse] at big
    exact ⟨toNat .little bytes, little, big⟩
  · intro c enough
    have width : (c.rest.take n).length = n := length_take_rest enough
    have split : c.rest = c.rest.take n ++ c.rest.drop n := (List.take_append_drop n _).symm
    have read := readUInt_of_front split (by rwa [width]) (by rwa [width])
    have word := toNat_toWord c.order (show (c.rest.take n).length ≤ 8 by rwa [width])
    have bound := toNat_lt c.order (c.rest.take n)
    rw [width] at read bound
    have sign := toInt_signed pos few (show (toWord c.order (c.rest.take n)).toNat < _ by rwa [word])
    rw [word] at sign
    exact ⟨_, _, read, readInt_of_readUInt read, toInt_modEq _ _, BitVec.le_toInt _,
      BitVec.toInt_lt, word.symm, sign.symm⟩

/-- All 64 bits are kept, and the least of all integers is read back. -/
theorem integers_read_back_widest :
    let c := behind [7] (encode .big 8 0xfedcba9876543210 ++ [9]) .big
    let d := behind [7] (encodeInt .little 8 (-0x8000000000000000) ++ [9]) .little
    c.rest = [0xfe, 0xdc, 0xba, 0x98, 0x76, 0x54, 0x32, 0x10, 9] ∧
    d.rest = [0, 0, 0, 0, 0, 0, 0, 0x80, 9] ∧
    c.readUInt 8 = .ok (0xfedcba9876543210, c.advance 8) ∧
    d.readInt 8 = .ok (-0x8000000000000000, d.advance 8) := by
  have widest := integers_read_back (show 1 ≤ 8 by decide) (show 8 ≤ 8 by decide)
  exact ⟨by decide, by decide, widest.1 .big _ [7] [9] (by decide),
    widest.2.2.1 .little _ [7] [9] (by decide) (by decide)⟩

end ByteSchema
