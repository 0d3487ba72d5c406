import ByteSchema.Proofs.Value.Words
import Mathlib.Algebra.Order.Ring.Int

/-!
# Arithmetic on integers

An operator gives the integer that is the exact result wherever this has 64 bits, and a double
otherwise: `arithmetic_of_ints`. A power is no exception, since on the way to a power that fits
repeated squaring meets no number that does not: `gives_powFrom?`. A remainder always fits, but it
is given up with the quotient, so that there is one pair of integers with a double for it:
`remainder_of_ints`.
-/

namespace ByteSchema

/-! ### Numbers that fit -/

namespace Word

/-- The integer has 64 bits. -/
def Fits (r : Int) : Prop := -2 ^ 63 ≤ r ∧ r < 2 ^ 63

instance (r : Int) : Decidable (Fits r) := inferInstanceAs (Decidable (_ ∧ _))

theorem fits_toInt (n : Int64) : Fits n.toInt := ⟨n.le_toInt, n.toInt_lt⟩

/-- The result is the integer `r` if `whole` holds, and none otherwise. -/
structure Gives (whole : Prop) (r : Int) (result : Option Int64) : Prop where
  some : whole → ∃ n : Int64, n.toInt = r ∧ result = some n
  none : ¬ whole → result = none

theorem gives_ofInt? (r : Int) : Gives (Fits r) r (ofInt? r) := by
  rw [ofInt?_eq]
  constructor
  · rintro ⟨low, high⟩
    exact ⟨Int64.ofInt r, Int64.toInt_ofInt_of_le low high, if_pos ⟨low, high⟩⟩
  · intro large
    exact if_neg large

/-- Of two steps the first one gives nothing only where the whole does. -/
theorem Gives.bind {part whole : Prop} {z r : Int} {x : Option Int64} {f : Int64 → Option Int64}
    (hx : Gives part z x) (needed : whole → part)
    (hf : ∀ n : Int64, n.toInt = z → Gives whole r (f n)) : Gives whole r (x.bind f) := by
  by_cases h : part
  · obtain ⟨n, value, rfl⟩ := hx.some h
    exact hf n value
  · rw [hx.none h]
    exact ⟨fun hwhole => absurd (needed hwhole) h, fun _ => rfl⟩

theorem Fits.of_mul {z p : Int} (h : Fits (z * p)) (hp : 1 ≤ p) : Fits z := by
  obtain ⟨low, high⟩ := h
  rcases Int.le_total 0 z with positive | negative
  · have := le_mul_of_one_le_right positive hp
    exact ⟨by omega, by omega⟩
  · have := mul_le_of_one_le_right negative hp
    exact ⟨by omega, by omega⟩

theorem square_ne (s : Int) : s * s ≠ 2 ^ 63 := by
  intro square
  have sizes : s.natAbs * s.natAbs = 2 ^ 63 := by
    rw [← Int.natAbs_mul, square]
    rfl
  rcases Nat.lt_or_ge s.natAbs 3037000500 with small | large
  · have := Nat.mul_le_mul (Nat.le_of_lt_succ small) (Nat.le_of_lt_succ small)
    omega
  · have := Nat.mul_le_mul large large
    omega

/-- A square fits if a multiple of a power of it does. -/
theorem Fits.square {z s : Int} {k : Nat} (h : Fits (z * (s * s) ^ k)) (hz : z ≠ 0) (hk : k ≠ 0) :
    Fits (s * s) := by
  have nonneg : 0 ≤ s * s := mul_self_nonneg s
  by_cases zero : s * s = 0
  · rw [zero]
    decide
  have below : s * s ≤ (s * s) ^ k := le_self_pow₀ (by omega) hk
  have size : (s * s) ^ k ≤ 2 ^ 63 := by
    obtain ⟨low, high⟩ := h
    rcases Int.lt_or_gt_of_ne hz with negative | positive
    · have := mul_le_mul_of_nonneg_right (show z ≤ -1 by omega) (show 0 ≤ (s * s) ^ k by omega)
      omega
    · have := mul_le_mul_of_nonneg_right (show 1 ≤ z by omega) (show 0 ≤ (s * s) ^ k by omega)
      omega
  -- A square of `2 ^ 63` would be out of range with the power in range, but there is none.
  have := square_ne s
  exact ⟨by omega, by omega⟩

/-! ### Powers -/

/-- `acc` after the last bit of the exponent. -/
def taken (acc base : Int) (exponent : Nat) : Int :=
  if exponent % 2 = 1 then acc * base else acc

theorem taken_mul (acc base : Int) (exponent : Nat) :
    acc * base ^ exponent = taken acc base exponent * (base * base) ^ (exponent / 2) := by
  have halves : exponent = 2 * (exponent / 2) + exponent % 2 := (Nat.div_add_mod exponent 2).symm
  have square : base ^ (2 * (exponent / 2)) = (base * base) ^ (exponent / 2) := by
    rw [pow_mul, pow_two]
  unfold taken
  rcases Nat.mod_two_eq_zero_or_one exponent with even | odd
  · rw [even, Nat.add_zero] at halves
    rw [even, if_neg (by decide), ← square, ← halves]
  · rw [odd] at halves
    rw [odd, if_pos rfl, ← square, Int.mul_assoc, ← pow_succ', ← halves]

theorem gives_taken (acc base : Int64) (exponent : Nat) :
    Gives (Fits (taken acc.toInt base.toInt exponent)) (taken acc.toInt base.toInt exponent)
      (if exponent % 2 = 1 then mul? acc base else some acc) := by
  unfold taken
  split
  · exact gives_ofInt? _
  · exact ⟨fun _ => ⟨acc, rfl, rfl⟩, fun h => absurd (fits_toInt acc) h⟩

theorem taken_ne_zero {acc base : Int} (hacc : acc ≠ 0) (hbase : base ≠ 0) (exponent : Nat) :
    taken acc base exponent ≠ 0 := by
  unfold taken
  split
  · exact Int.mul_ne_zero hacc hbase
  · exact hacc

/-- A power that fits has no larger part. -/
theorem fits_taken {acc base : Int64} {exponent : Nat}
    (h : Fits (acc.toInt * base.toInt ^ exponent)) :
    Fits (taken acc.toInt base.toInt exponent) := by
  by_cases zero : base.toInt = 0
  · unfold taken
    split
    · rw [zero, Int.mul_zero]
      decide
    · exact fits_toInt acc
  · rw [taken_mul] at h
    have positive : 0 < base.toInt * base.toInt := mul_self_pos.mpr zero
    exact h.of_mul (one_le_pow₀ positive)

/-- If a power fits then so does all that repeated squaring meets on the way. -/
theorem gives_powFrom? {bits exponent : Nat} {acc base : Int64}
    (apart : base.toInt = 0 ∨ acc.toInt ≠ 0) (pos : 0 < exponent) (small : exponent < 2 ^ bits) :
    Gives (Fits (acc.toInt * base.toInt ^ exponent)) (acc.toInt * base.toInt ^ exponent)
      (powFrom? bits acc base exponent) := by
  induction bits generalizing acc base exponent with
  | zero => omega
  | succ bits ih =>
    rw [powFrom?]
    refine (gives_taken acc base exponent).bind fits_taken fun n hn => ?_
    split
    · next last =>
      rw [taken_mul, ← hn, last, pow_zero, Int.mul_one]
      exact ⟨fun _ => ⟨n, rfl, rfl⟩, fun h => absurd (fits_toInt n) h⟩
    · next more =>
      have half : exponent / 2 ≠ 0 := by omega
      have square : Fits (acc.toInt * base.toInt ^ exponent) → Fits (base.toInt * base.toInt) := by
        intro h
        rcases apart with zero | nonzero
        · rw [zero]
          decide
        · by_cases zero : base.toInt = 0
          · rw [zero]
            decide
          · rw [taken_mul] at h
            exact h.square (taken_ne_zero nonzero zero _) half
      refine (gives_ofInt? _).bind square fun m hm => ?_
      have apart : m.toInt = 0 ∨ n.toInt ≠ 0 := by
        rw [hm, hn]
        by_cases zero : base.toInt = 0
        · exact .inl (by rw [zero, Int.zero_mul])
        · exact .inr (taken_ne_zero (apart.resolve_left zero) zero _)
      have rest : Gives _ _ (powFrom? bits n m (exponent / 2)) := ih apart (by omega) (by omega)
      rwa [hn, hm, ← taken_mul] at rest

theorem gives_pow? {base : Int64} {exponent : Nat} (small : exponent < 2 ^ 32) :
    Gives (Fits (base.toInt ^ exponent)) (base.toInt ^ exponent) (pow? base exponent) := by
  unfold pow?
  split
  · next zero =>
    rw [zero, pow_zero]
    exact ⟨fun _ => ⟨1, rfl, rfl⟩, fun h => absurd (fits_toInt 1) h⟩
  · next nonzero =>
    have power : Gives _ _ (powFrom? 32 1 base exponent) :=
      gives_powFrom? (.inr (by decide)) (Nat.pos_of_ne_zero nonzero) small
    rwa [show (1 : Int64).toInt = 1 from rfl, Int.one_mul] at power

end Word

/-! ### Operations -/

namespace Operator

open Word Binary64

/-- The quotient of two words is one, but for the size of the least one. -/
theorem fits_tdiv_iff {a b : Int} (ha : Fits a) (hb : b ≠ 0) :
    Fits (a.tdiv b) ↔ ¬ (a = -2 ^ 63 ∧ b = -1) := by
  have size : (a.tdiv b).natAbs = a.natAbs / b.natAbs := Int.natAbs_tdiv a b
  unfold Fits at *
  constructor
  · rintro ⟨-, high⟩ ⟨rfl, rfl⟩
    exact absurd high (by decide)
  · intro apart
    by_cases unit : b.natAbs = 1
    · rcases Int.natAbs_eq_iff.mp unit with rfl | rfl
      · rw [Int.natCast_one, Int.tdiv_one]
        exact ha
      · rw [Int.natCast_one, Int.tdiv_neg, Int.tdiv_one]
        omega
    · have half : a.natAbs / b.natAbs ≤ a.natAbs / 2 := Nat.div_le_div_left (by omega) (by decide)
      omega

theorem fits_tmod {a b : Int} (hb : Fits b) (nonzero : b ≠ 0) : Fits (a.tmod b) := by
  have size := Int.natAbs_tmod a b
  have less := Nat.mod_lt a.natAbs (Int.natAbs_pos.mpr nonzero)
  unfold Fits at *
  omega

theorem gives_quotient? (a b : Int) :
    Gives (b ≠ 0 ∧ b ∣ a ∧ Fits (a / b)) (a / b) (quotient? a b) := by
  unfold quotient?
  split
  · next whole =>
    have divides : b ∣ a := Int.dvd_of_tmod_eq_zero whole.2
    rw [Int.tdiv_eq_ediv_of_dvd divides]
    have quotient := gives_ofInt? (a / b)
    exact ⟨fun h => quotient.some h.2.2, fun h => quotient.none fun fits =>
      h ⟨whole.1, divides, fits⟩⟩
  · next broken =>
    exact ⟨fun h => absurd ⟨h.1, Int.tmod_eq_zero_of_dvd h.2.1⟩ broken, fun _ => rfl⟩

theorem gives_remainder? (a b : Int64) (nonzero : b.toInt ≠ 0) :
    Gives (¬ (a.toInt = -2 ^ 63 ∧ b.toInt = -1)) (a.toInt.tmod b.toInt)
      (remainder? a.toInt b.toInt) := by
  have quotient := gives_ofInt? (a.toInt.tdiv b.toInt)
  rw [← fits_tdiv_iff (fits_toInt a) nonzero]
  unfold remainder?
  constructor
  · intro fits
    obtain ⟨q, -, hq⟩ := quotient.some fits
    rw [hq, if_pos ⟨nonzero, rfl⟩]
    exact (gives_ofInt? _).some (fits_tmod (fits_toInt b) nonzero)
  · intro large
    rw [quotient.none large, if_neg fun h => absurd h.2 (by decide)]

theorem gives_power? (a b : Int64) :
    Gives (0 ≤ b.toInt ∧ b.toInt < 2 ^ 32 ∧ Fits (a.toInt ^ b.toInt.toNat))
      (a.toInt ^ b.toInt.toNat) (power? a.toInt b.toInt) := by
  have size : ((UInt32.size : Nat) : Int) = 2 ^ 32 := rfl
  unfold power?
  rw [Int64.ofInt_toInt, size]
  split
  · next exponent =>
    have power := @gives_pow? a b.toInt.toNat (by omega)
    exact ⟨fun h => power.some h.2.2, fun h => power.none fun fits =>
      h ⟨exponent.1, exponent.2, fits⟩⟩
  · next exponent =>
    exact ⟨fun h => absurd ⟨h.1, h.2.1⟩ exponent, fun _ => rfl⟩

/-- The result is the integer `r` if `whole` holds, and the double `x` otherwise. -/
structure Yields (whole : Prop) (r : Int) (x : Float) (result : Except Error Value) : Prop where
  int : whole → ∃ n : Int64, n.toInt = r ∧ result = .ok (.int n)
  float : ¬ whole → result = .ok (.float x)

section

variable {lhs rhs : Value} {a b : Int64} (ha : lhs.toNumber = .ok (.int a))
  (hb : rhs.toNumber = .ok (.int b))

include ha hb

theorem arithmetic_yields {whole : Prop} {r : Int} (onInts : Int → Int → Option Int64)
    (onFloats : Float → Float → Float) (h : Gives whole r (onInts a.toInt b.toInt)) :
    Yields whole r (onFloats (ofInt64 a) (ofInt64 b)) (arithmetic onInts onFloats lhs rhs) where
  int hwhole := by
    obtain ⟨n, value, hn⟩ := h.some hwhole
    exact ⟨n, value, arithmetic_of_some ha hb hn⟩
  float hwhole := arithmetic_of_none ha hb (h.none hwhole)

/-- Operands that count as integers of 64 bits give the exact result where it is one, and a double
otherwise. -/
theorem arithmetic_of_ints :
    (isText lhs = false → isText rhs = false → Yields (Fits (a.toInt + b.toInt))
      (a.toInt + b.toInt) (ofInt64 a + ofInt64 b) (add.apply lhs rhs)) ∧
    Yields (Fits (a.toInt - b.toInt)) (a.toInt - b.toInt) (ofInt64 a - ofInt64 b)
      (sub.apply lhs rhs) ∧
    Yields (Fits (a.toInt * b.toInt)) (a.toInt * b.toInt) (ofInt64 a * ofInt64 b)
      (mul.apply lhs rhs) ∧
    Yields (b.toInt ≠ 0 ∧ b.toInt ∣ a.toInt ∧ Fits (a.toInt / b.toInt)) (a.toInt / b.toInt)
      (ofInt64 a / ofInt64 b) (div.apply lhs rhs) ∧
    Yields (0 ≤ b.toInt ∧ b.toInt < 2 ^ 32 ∧ Fits (a.toInt ^ b.toInt.toNat))
      (a.toInt ^ b.toInt.toNat) (Float.pow (ofInt64 a) (ofInt64 b)) (pow.apply lhs rhs) := by
  refine ⟨fun left right => ?_, ?_, ?_, ?_, ?_⟩
  · simp only [apply, left, right]
    exact arithmetic_yields ha hb (fun m n => ofInt? (m + n)) (· + ·) (gives_ofInt? _)
  · exact arithmetic_yields ha hb (fun m n => ofInt? (m - n)) (· - ·) (gives_ofInt? _)
  · exact arithmetic_yields ha hb (fun m n => ofInt? (m * n)) (· * ·) (gives_ofInt? _)
  · exact arithmetic_yields ha hb quotient? (· / ·) (gives_quotient? _ _)
  · exact arithmetic_yields ha hb power? Float.pow (gives_power? a b)

end

/-- The least integer is a power of `-2`, and its negative is none of 64 bits. -/
theorem arithmetic_of_ints_least :
    (∃ n : Int64, n.toInt = -2 ^ 63 ∧ pow.apply (.int (-2)) (.text "0x3f") = .ok (.int n)) ∧
    add.apply (.bool true) (.int Int64.maxValue) =
      .ok (.float (ofInt64 1 + ofInt64 Int64.maxValue)) ∧
    sub.apply (.bool false) (.int Int64.minValue) =
      .ok (.float (ofInt64 0 - ofInt64 Int64.minValue)) ∧
    div.apply (.int Int64.minValue) (.int (-1)) =
      .ok (.float (ofInt64 Int64.minValue / ofInt64 (-1))) := by
  have power := @arithmetic_of_ints (.int (-2)) (.text "0x3f") (-2) 63 rfl rfl
  have sum := @arithmetic_of_ints (.bool true) (.int Int64.maxValue) _ _ rfl rfl
  have difference := @arithmetic_of_ints (.bool false) (.int Int64.minValue) _ _ rfl rfl
  have quotient := @arithmetic_of_ints (.int Int64.minValue) (.int (-1)) _ _ rfl rfl
  refine ⟨power.2.2.2.2.int (by decide), (sum.1 rfl rfl).float (by decide), ?_, ?_⟩
  · exact difference.2.1.float (by decide)
  · exact quotient.2.2.2.1.float (by decide)

/-- The remainder of two integers always fits, and is exact unless the quotient is `2 ^ 63`. -/
theorem remainder_of_ints {a b : Int64} (nonzero : b.toInt ≠ 0) :
    Fits (a.toInt.tmod b.toInt) ∧
    a.toInt.tmod b.toInt = a.toInt - b.toInt * a.toInt.tdiv b.toInt ∧
    Yields (¬ (a.toInt = -2 ^ 63 ∧ b.toInt = -1)) (a.toInt.tmod b.toInt) (-0.0)
      (rem.apply (.int a) (.int b)) := by
  have result : Yields _ _ _ (rem.apply (.int a) (.int b)) :=
    arithmetic_yields rfl rfl remainder? Binary64.remainder (gives_remainder? a b nonzero)
  refine ⟨fits_tmod (fits_toInt b) nonzero, Int.tmod_def _ _, result.int, fun least => ?_⟩
  obtain ⟨ha, hb⟩ := Classical.not_not.mp least
  obtain rfl : a = Int64.minValue := Int64.toInt_inj.mp ha
  obtain rfl : b = -1 := Int64.toInt_inj.mp hb
  rfl

/-- The remainder zero is given up for a negative zero. -/
theorem remainder_of_ints_least :
    rem.apply (.int Int64.minValue) (.int (-1)) = .ok (.float (-0.0)) ∧
    Int64.minValue.toInt.tmod (-1) = 0 :=
  ⟨rfl, rfl⟩

theorem remainder_of_ints_signed :
    (∃ n : Int64, n.toInt = -1 ∧ rem.apply (.int (-7)) (.int 3) = .ok (.int n)) ∧
    ∃ n : Int64, n.toInt = 1 ∧ rem.apply (.int 7) (.int (-3)) = .ok (.int n) := by
  have negative := (remainder_of_ints (a := -7) (b := 3) (by decide)).2.2
  have positive := (remainder_of_ints (a := 7) (b := -3) (by decide)).2.2
  exact ⟨negative.int (by decide), positive.int (by decide)⟩

end Operator

end ByteSchema
