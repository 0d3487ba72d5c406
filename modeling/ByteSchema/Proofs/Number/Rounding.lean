import Mathlib.Algebra.Order.Ring.Nat

/-!
# Rounding to 53 bits

`nearest n` is the number of at most 53 significant bits that is nearest to `n`, of two equally near
ones the one with the even mantissa. Up to `2 ^ 53` it is `n`, and it may bring two numbers together
but never changes their order: `nearest_mono`.
-/

namespace ByteSchema.Binary64

/-- The quotient rounded to an integer, a half to the even one. -/
def roundDiv (n unit : Nat) : Nat :=
  if 2 * (n % unit) < unit then n / unit
  else if 2 * (n % unit) = unit then n / unit + n / unit % 2
  else n / unit + 1

/-- The number of bits of `n` below the leading 53. -/
def excess (n : Nat) : Nat := n.log2 - 52

def nearestNat (n : Nat) : Nat := roundDiv n (2 ^ excess n) * 2 ^ excess n

/-- Both signs round alike. -/
def nearest (n : Int) : Int := if n < 0 then -(nearestNat n.natAbs) else nearestNat n.natAbs

/-! ### The rounded quotient -/

variable {m n k : Nat}

theorem roundDiv_bounds (n unit : Nat) :
    n / unit ≤ roundDiv n unit ∧ roundDiv n unit ≤ n / unit + 1 := by
  unfold roundDiv
  split
  · omega
  split <;> omega

theorem roundDiv_one (n : Nat) : roundDiv n 1 = n := by
  simp [roundDiv, Nat.mod_one]

theorem roundDiv_mono (unit : Nat) (h : m ≤ n) : roundDiv m unit ≤ roundDiv n unit := by
  have hm := roundDiv_bounds m unit
  have hn := roundDiv_bounds n unit
  rcases Nat.lt_or_eq_of_le (Nat.div_le_div_right (c := unit) h) with below | same
  · omega
  -- With one quotient the remainders are in the order of the numbers.
  · have remainders : m % unit ≤ n % unit := by
      have em := Nat.div_add_mod m unit
      have en := Nat.div_add_mod n unit
      rw [same] at em
      omega
    unfold roundDiv
    rw [same]
    repeat' split
    all_goals omega

/-- A number of `53 + k` bits has a mantissa, or the next power of two. -/
theorem roundDiv_normal (hn : n ≠ 0) (hlog : n.log2 = 52 + k) :
    2 ^ 52 ≤ roundDiv n (2 ^ k) ∧ roundDiv n (2 ^ k) ≤ 2 ^ 53 := by
  have unit_pos : 0 < 2 ^ k := Nat.two_pow_pos k
  have low : 2 ^ 52 ≤ n / 2 ^ k := by
    rw [Nat.le_div_iff_mul_le unit_pos, ← Nat.pow_add, ← hlog]
    exact Nat.log2_self_le hn
  have high : n / 2 ^ k < 2 ^ 53 := by
    rw [Nat.div_lt_iff_lt_mul unit_pos, ← Nat.pow_add, show 53 + k = n.log2 + 1 by omega]
    exact Nat.lt_log2_self
  have bounds := roundDiv_bounds n (2 ^ k)
  omega

/-! ### The nearest number -/

theorem log2_eq_of_excess (h : excess n ≠ 0) : n.log2 = 52 + excess n := by
  unfold excess at *
  omega

theorem excess_eq_zero_iff (n : Nat) : excess n = 0 ↔ n < 2 ^ 53 := by
  by_cases zero : n = 0
  · simp [excess, zero]
  · rw [← Nat.log2_lt zero, excess]
    omega

theorem nearestNat_of_lt (h : n < 2 ^ 53) : nearestNat n = n := by
  rw [nearestNat, (excess_eq_zero_iff n).mpr h, Nat.pow_zero, roundDiv_one, Nat.mul_one]

theorem nearestNat_of_le (h : n ≤ 2 ^ 53) : nearestNat n = n := by
  rcases Nat.lt_or_eq_of_le h with less | rfl
  · exact nearestNat_of_lt less
  · decide

/-- Rounding stays between the powers of two around a number. -/
theorem nearestNat_bounds (hn : n ≠ 0) :
    2 ^ n.log2 ≤ nearestNat n ∧ nearestNat n ≤ 2 ^ (n.log2 + 1) := by
  by_cases small : n < 2 ^ 53
  · rw [nearestNat_of_lt small]
    exact ⟨Nat.log2_self_le hn, Nat.le_of_lt Nat.lt_log2_self⟩
  · have long : excess n ≠ 0 := mt (excess_eq_zero_iff n).mp small
    have hlog := log2_eq_of_excess long
    have ⟨low, high⟩ := roundDiv_normal hn hlog
    rw [nearestNat, hlog, Nat.pow_add, show 52 + excess n + 1 = 53 + excess n by omega, Nat.pow_add]
    exact ⟨Nat.mul_le_mul_right _ low, Nat.mul_le_mul_right _ high⟩

theorem nearestNat_mono (h : m ≤ n) : nearestNat m ≤ nearestNat n := by
  by_cases zero : m = 0
  · rw [zero, nearestNat_of_lt (by decide)]
    exact Nat.zero_le _
  have hn : n ≠ 0 := by omega
  have logs : m.log2 ≤ n.log2 := (Nat.le_log2 hn).mpr (Nat.le_trans (Nat.log2_self_le zero) h)
  rcases Nat.lt_or_eq_of_le logs with lower | same
  -- A power of two stands between numbers of different length.
  · calc nearestNat m
      _ ≤ 2 ^ (m.log2 + 1) := (nearestNat_bounds zero).2
      _ ≤ 2 ^ n.log2 := Nat.pow_le_pow_right (by decide) lower
      _ ≤ nearestNat n := (nearestNat_bounds hn).1
  · unfold nearestNat excess
    rw [same]
    exact Nat.mul_le_mul_right _ (roundDiv_mono _ h)

theorem le_nearestNat_iff (n : Nat) : 2 ^ 53 ≤ nearestNat n ↔ 2 ^ 53 ≤ n := by
  constructor
  · intro h
    by_cases small : n < 2 ^ 53
    · rwa [nearestNat_of_lt small] at h
    · exact Nat.le_of_not_lt small
  · intro h
    exact nearestNat_of_le (Nat.le_refl _) ▸ nearestNat_mono h

/-! ### Integers -/

theorem nearest_of_le {n : Int} (h : n.natAbs ≤ 2 ^ 53) : nearest n = n := by
  unfold nearest
  rw [nearestNat_of_le h]
  split <;> omega

theorem nearest_mono {a b : Int} (h : a ≤ b) : nearest a ≤ nearest b := by
  unfold nearest
  split
  · split
    · have := nearestNat_mono (m := b.natAbs) (n := a.natAbs) (by omega)
      omega
    · omega
  · rw [if_neg (by omega)]
    have := nearestNat_mono (m := a.natAbs) (n := b.natAbs) (by omega)
    omega

theorem natAbs_nearest (n : Int) : (nearest n).natAbs = nearestNat n.natAbs := by
  unfold nearest
  split <;> omega

theorem natAbs_nearest_lt_iff (n : Int) : (nearest n).natAbs < 2 ^ 53 ↔ n.natAbs < 2 ^ 53 := by
  rw [natAbs_nearest, ← Nat.not_le, le_nearestNat_iff, Nat.not_le]

/-- Only `a` itself rounds to an `a` below `2 ^ 53`. -/
theorem nearest_inj_of_lt {a b : Int} (h : a.natAbs < 2 ^ 53 ∨ b.natAbs < 2 ^ 53)
    (same : nearest a = nearest b) : a = b := by
  have sizes : a.natAbs < 2 ^ 53 ↔ b.natAbs < 2 ^ 53 := by
    rw [← natAbs_nearest_lt_iff, same, natAbs_nearest_lt_iff]
  rwa [nearest_of_le (by omega), nearest_of_le (by omega)] at same

/-- Numbers that do not round to one are ordered as what they round to. -/
theorem nearest_lt_iff {a b : Int} (h : nearest a = nearest b → a = b) :
    nearest a < nearest b ↔ a < b := by
  rcases Int.lt_trichotomy a b with less | rfl | more
  · have := nearest_mono (Int.le_of_lt less)
    omega
  · omega
  · have := nearest_mono (Int.le_of_lt more)
    omega

end ByteSchema.Binary64
