import ByteSchema.Proofs.Number.Doubles

/-!
# The double nearest to an integer

Words become the doubles that are `nearest` to them: `isInt_toFloat`, `isInt_ofInt64`. What is read
off such a double is said of the integer that it is.
-/

namespace ByteSchema.Binary64

open Float.Model Float.Model.UnpackedFloat

/-! ### Rounding a mantissa -/

/-- The exponent that leaves 53 bits before the point. -/
theorem targetExponent_eq {m : Nat} {e : Int} (h : -1022 ≤ (m.log2 : Int) + e) :
    Format.binary64.targetExponent (totalExponent m e) = m.log2 + e - 52 := by
  show max ((m.log2 : Int) + 1 + e - (53 : Nat)) (3 - (2 : Int) ^ 10 - (53 : Nat)) = _
  omega

theorem shiftToTargetExponent_eq {m : Nat} {e : Int} (hm : 52 ≤ m.log2) (he : -1074 ≤ e) :
    shiftToTargetExponent .binary64 m e .exact =
      (shifted m (m.log2 - 52), e + (m.log2 - 52 : Nat)) := by
  have target := targetExponent_eq (m := m) (e := e) (by omega)
  have amount : ((m.log2 : Int) + e - 52 - e).toNat = m.log2 - 52 := by omega
  simp only [shiftToTargetExponent, shiftToExponent, target, amount]
  rfl

theorem represents_packed (s : Sign) {r k n : Nat} {em : ExtendedMantissa} {e : Int}
    (mantissa : em.mantissa = r) (exponent : e = (k : Int) - 52) (low : 2 ^ 52 ≤ r)
    (high : r < 2 ^ 53) (hk : k ≤ 1023) (value : r * 2 ^ k = n * 2 ^ 52) :
    Represents (if h : em.mantissa = 0 then .zero s
      else .finite s em.mantissa e (Nat.pos_of_ne_zero h)) (s.apply n) := by
  subst mantissa exponent
  rw [dif_neg (by omega)]
  exact .finite s _ low high hk value

/-- A mantissa of more than 53 bits is cut off and rounded. If that makes it a power of two, one
more bit is cut off. -/
theorem represents_rounded (s : Sign) {m k n : Nat} {e : Int} (hm : 52 ≤ m.log2) (he : -1074 ≤ e)
    (hk : e + (m.log2 - 52 : Nat) = (k : Int) - 52) (small : k < 1023)
    (value : roundDiv m (2 ^ (m.log2 - 52)) * 2 ^ k = n * 2 ^ 52) :
    Represents (roundWithAccuracy .binary64 s m e .exact) (s.apply n) := by
  have nonzero : m ≠ 0 := fun zero => by simp [zero] at hm
  have ⟨low, high⟩ := roundDiv_normal nonzero (Nat.add_sub_of_le hm).symm
  have rounded := (cut_shifted m (m.log2 - 52)).roundedMantissa (Nat.two_pow_pos _)
  simp only [roundWithAccuracy, shiftToTargetExponent_eq hm he, rounded, hk]
  generalize roundDiv m (2 ^ (m.log2 - 52)) = r at *
  rcases Nat.lt_or_eq_of_le high with normal | rfl
  · have log : r.log2 = 52 := (Nat.log2_eq_iff (by omega)).mpr ⟨low, normal⟩
    have again := shiftToTargetExponent_eq (e := (k : Int) - 52) (Nat.le_of_eq log.symm) (by omega)
    rw [log] at again
    simp only [again]
    exact represents_packed s rfl (by omega) low normal (by omega) value
  · have log : (2 ^ 53 : Nat).log2 = 53 := Nat.log2_two_pow
    have again := shiftToTargetExponent_eq (m := 2 ^ 53) (e := (k : Int) - 52) (by omega) (by omega)
    rw [log] at again
    simp only [again]
    refine represents_packed s (r := 2 ^ 52) (k := k + 1) rfl (by omega) (by omega) (by omega)
      (by omega) ?_
    rw [← value, Nat.pow_succ]
    omega

theorem log2_shiftLeft {n : Nat} (hn : n ≠ 0) (j : Nat) : (n <<< j).log2 = n.log2 + j := by
  have unit_pos := Nat.two_pow_pos j
  rw [Nat.shiftLeft_eq, Nat.log2_eq_iff (Nat.mul_ne_zero hn unit_pos.ne'), Nat.pow_add,
    Nat.add_right_comm, Nat.pow_add]
  exact ⟨Nat.mul_le_mul_right _ (Nat.log2_self_le hn),
    Nat.mul_lt_mul_of_pos_right Nat.lt_log2_self unit_pos⟩

/-- A number of fewer than 53 bits is exact once it is moved to the left. -/
theorem roundDiv_shifted (n : Nat) :
    roundDiv (n <<< (52 - n.log2)) (2 ^ excess n) * 2 ^ n.log2 = nearestNat n * 2 ^ 52 := by
  by_cases fits : excess n = 0
  · have short : n.log2 ≤ 52 := Nat.le_of_sub_eq_zero fits
    rw [nearestNat_of_lt ((excess_eq_zero_iff n).mp fits), fits, Nat.pow_zero, roundDiv_one,
      Nat.shiftLeft_eq, Nat.mul_assoc, ← Nat.pow_add, Nat.sub_add_cancel short]
  · have log := log2_eq_of_excess fits
    rw [nearestNat, show 52 - n.log2 = 0 by omega, Nat.shiftLeft_zero, log, Nat.pow_add,
      Nat.mul_comm (2 ^ 52), Nat.mul_assoc]

theorem represents_ofNat {n : Nat} (h : n.log2 < 1023) :
    Represents (UnpackedFloat.ofNat .binary64 n) (nearestNat n) := by
  by_cases zero : n = 0
  · subst zero
    exact .zero .positive
  have positive : compare (n : Int) 0 = .gt := compare_gt_iff_gt.mpr (by omega)
  have target := targetExponent_eq (m := n) (e := 0) (by omega)
  have amount : (0 - ((n.log2 : Int) + 0 - 52)).toNat = 52 - n.log2 := by omega
  show Represents (UnpackedFloat.normalize .binary64 n 0 .positive) _
  simp only [UnpackedFloat.normalize, positive, UnpackedFloat.round, Int.toNat_natCast, target,
    decreaseExponent, amount]
  have log := log2_shiftLeft zero (52 - n.log2)
  have cut_off : (n <<< (52 - n.log2)).log2 - 52 = excess n := by
    unfold excess
    omega
  refine represents_rounded .positive (k := n.log2) (by omega) (by omega) ?_ h ?_
  · unfold excess at cut_off
    omega
  · rw [cut_off]
    exact roundDiv_shifted n

theorem isInt_toFloat (n : UInt64) : IsInt n.toFloat (nearestNat n.toNat) := by
  have small : n.toNat.log2 < 1023 := by
    by_cases zero : n.toNat = 0
    · rw [zero]
      decide
    · have := (Nat.log2_lt zero).mpr n.toNat_lt
      omega
  have value := represents_ofNat small
  rw [← value.unpack_pack] at value
  exact value

/-! ### The conversions -/

theorem isInt_ofInt64 (n : Int64) : IsInt (ofInt64 n) (nearest n.toInt) := by
  have low := Int64.le_toInt n
  have high := Int64.toInt_lt n
  have word : n.toInt.natAbs.toUInt64.toNat = n.toInt.natAbs :=
    UInt64.toNat_ofNat_of_lt' (by show n.toInt.natAbs < 2 ^ 64; omega)
  have size := isInt_toFloat n.toInt.natAbs.toUInt64
  rw [word] at size
  have sign : n < 0 ↔ n.toInt < 0 := Int64.lt_iff_toInt_lt
  unfold ofInt64 nearest
  by_cases negative : n < 0
  · rw [if_pos negative, if_pos (sign.mp negative)]
    exact size.neg
  · rw [if_neg negative, if_neg (mt sign.mpr negative)]
    exact size

theorem isInt_zero : IsInt 0.0 0 := .zero .positive

theorem IsInt.toInt64 {x : Float} {n : Int} (h : IsInt x n) :
    toInt64 x = Int64.ofInt (max Int64.minValue.toInt (min n Int64.maxValue.toInt)) := by
  have size := h.abs.toUInt64
  have max_eq : Int64.maxValue.toInt = 0x7fffffffffffffff := by decide
  have min_eq : Int64.minValue.toInt = -0x8000000000000000 := by decide
  have word_eq : UInt64.size = 0x10000000000000000 := rfl
  have sign := h.lt_iff isInt_zero
  unfold Binary64.toInt64
  dsimp only
  rw [size]
  by_cases negative : n < 0
  · rw [if_pos (sign.mpr negative)]
    exact congrArg Int64.ofInt (by omega)
  · rw [if_neg (mt sign.mp negative)]
    exact congrArg Int64.ofInt (by omega)

/-- From `2 ^ 53` on every double is even. -/
theorem IsInt.isOdd {x : Float} {n : Int} (h : IsInt x n) :
    isOdd x = decide (n.natAbs < 2 ^ 53 ∧ n % 2 = 1) := by
  have size := h.abs.toUInt64
  have word_eq : UInt64.size = 0x10000000000000000 := rfl
  have limit : IsInt 9007199254740992.0 (2 ^ 53 : Nat) := isInt_toFloat 0x20000000000000
  have small := h.abs.lt_iff limit
  have finite : (!x.isFinite) = false := by rw [h.isFinite]; rfl
  unfold Binary64.isOdd
  rw [finite, size, if_neg Bool.false_ne_true, Bool.eq_iff_iff, decide_eq_true_iff]
  by_cases below : n.natAbs < 2 ^ 53
  · rw [if_pos (small.mpr (by omega)), beq_iff_eq]
    omega
  · rw [if_neg fun h => below (Int.ofNat_lt.mp (small.mp h))]
    exact ⟨nofun, fun h => absurd h.1 below⟩

theorem isOdd_ofInt64 (n : Int64) :
    isOdd (ofInt64 n) = decide (n.toInt.natAbs < 2 ^ 53 ∧ n.toInt % 2 = 1) := by
  rw [(isInt_ofInt64 n).isOdd, decide_eq_decide, natAbs_nearest_lt_iff]
  refine and_congr_right fun below => ?_
  rw [nearest_of_le (Nat.le_of_lt below)]

end ByteSchema.Binary64
