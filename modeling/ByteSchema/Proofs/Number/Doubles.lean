import ByteSchema.Number.Binary64
import ByteSchema.Proofs.Number.Rounding
import Mathlib

/-!
# Doubles that are integers

`IsInt x n` says that `x` is `n`. Such doubles compare as the integers do, they change the sign with
them, and their whole part is `n` again.
-/

namespace ByteSchema.Binary64

open Float.Model Float.Model.UnpackedFloat

/-- The unpacked double is this integer. Other than zero it has a mantissa of 53 bits. -/
inductive Represents : UnpackedFloat → Int → Prop
  | zero (s : Sign) : Represents (.zero s) 0
  | finite (s : Sign) {m k n : Nat} (pos : 0 < m) : 2 ^ 52 ≤ m → m < 2 ^ 53 → k ≤ 1023 →
      m * 2 ^ k = n * 2 ^ 52 → Represents (.finite s m ((k : Int) - 52) pos) (s.apply n)

/-- `x` is the integer `n`. -/
def IsInt (x : Float) (n : Int) : Prop := Represents x.toModel.unpack n

/-! ### Packing -/

/-- The implicit bit stands above the stored ones. -/
theorem toNat_implicit {m : Nat} (low : 2 ^ 52 ≤ m) (high : m < 2 ^ 53) :
    (1#1 ++ BitVec.ofNat 52 m).toNat = m := by
  rw [BitVec.toNat_append, ← Nat.shiftLeft_add_eq_or_of_lt (BitVec.isLt _), BitVec.toNat_ofNat,
    BitVec.toNat_ofNat, Nat.shiftLeft_eq]
  omega

theorem unpack_pack_zero (s : Sign) : (Float.Model.pack (.zero s)).unpack = .zero s := by
  cases s <;> rfl

/-- The exponent of a normal double as it is stored, from 1 to 2046. -/
theorem biased_normal {k : Nat} (hk : k ≤ 1023) : (BitVec.ofNat 11 (k + 1023)).toNat = k + 1023 ∧
    BitVec.ofNat 11 (k + 1023) ≠ -1#11 ∧ BitVec.ofNat 11 (k + 1023) ≠ 0#11 := by
  have stored : (BitVec.ofNat 11 (k + 1023)).toNat = k + 1023 := by
    rw [BitVec.toNat_ofNat]
    omega
  refine ⟨stored, fun ones => ?_, fun zero => ?_⟩
  · have := congrArg BitVec.toNat ones
    rw [stored] at this
    simp at this
    omega
  · have := congrArg BitVec.toNat zero
    rw [stored] at this
    simp at this

theorem pack_normal (s : Sign) {m k : Nat} (pos : 0 < m) (low : 2 ^ 52 ≤ m) (high : m < 2 ^ 53)
    (hk : k ≤ 1023) : UnpackedFloat.pack .binary64 (.finite s m ((k : Int) - 52) pos) =
      packComponents .binary64 s (BitVec.ofNat 11 (k + 1023)) (BitVec.ofNat 52 m) := by
  have hlog : m.log2 + 1 = Format.binary64.mantissaBits :=
    congrArg (· + 1) ((Nat.log2_eq_iff (by omega)).mpr ⟨low, high⟩)
  have biased : ((k : Int) - 52 + Format.binary64.exponentBias +
      Format.binary64.mantissaBitsWithoutImplicit).toNat = k + 1023 := by
    show ((k : Int) - 52 + (1023 : Nat) + (52 : Nat)).toNat = k + 1023
    omega
  unfold UnpackedFloat.pack
  dsimp only
  rw [biased, if_neg (by omega), if_pos hlog]

theorem unpack_pack_normal (s : Sign) {m k : Nat} (pos : 0 < m) (low : 2 ^ 52 ≤ m)
    (high : m < 2 ^ 53) (hk : k ≤ 1023) :
    (Float.Model.pack (.finite s m ((k : Int) - 52) pos)).unpack = .finite s m (k - 52) pos := by
  obtain ⟨stored, not_ones, not_zero⟩ := biased_normal hk
  show UnpackedFloat.unpack .binary64 (UnpackedFloat.pack .binary64 _) = _
  rw [pack_normal s pos low high hk]
  unfold UnpackedFloat.unpack
  simp only [unpackExponent_packComponents, unpackMantissa_packComponents,
    unpackSign_packComponents, Sign.ofBitVec_toBitVec]
  rw [if_neg not_ones, if_neg not_zero]
  simp only [toNat_implicit low high, stored, finite.injEq, true_and]
  show ((k + 1023 : Nat) : Int) - ((1023 : Nat) + (52 : Nat)) = k - 52
  omega

theorem Represents.unpack_pack {u : UnpackedFloat} {n : Int} (h : Represents u n) :
    (Float.Model.pack u).unpack = u := by
  cases h with
  | zero s => exact unpack_pack_zero s
  | finite s pos low high hk _ => exact unpack_pack_normal s pos low high hk

/-! ### Signs -/

theorem Represents.neg {u : UnpackedFloat} {n : Int} (h : Represents u n) :
    Represents u.neg (-n) := by
  cases h with
  | zero s => exact .zero (-s)
  | finite s pos low high hk value =>
    have h := Represents.finite (-s) pos low high hk value
    cases s with
    | positive => exact h
    | negative => exact (Int.neg_neg _).symm ▸ h

theorem Represents.abs {u : UnpackedFloat} {n : Int} (h : Represents u n) :
    Represents u.abs n.natAbs := by
  cases h with
  | zero s => exact .zero .positive
  | @finite s m k n pos low high hk value =>
    have size : (s.apply n).natAbs = n := by cases s <;> simp [Sign.apply]
    rw [size]
    exact .finite .positive pos low high hk value

theorem IsInt.neg {x : Float} {n : Int} (h : IsInt x n) : IsInt (-x) (-n) := by
  have negated := Represents.neg h
  rw [← negated.unpack_pack] at negated
  exact negated

theorem IsInt.abs {x : Float} {n : Int} (h : IsInt x n) : IsInt x.abs n.natAbs := by
  have positive := Represents.abs h
  rw [← positive.unpack_pack] at positive
  exact positive

theorem Represents.isFinite {u : UnpackedFloat} {n : Int} (h : Represents u n) :
    u.isFinite = true := by
  cases h <;> rfl

theorem IsInt.isFinite {x : Float} {n : Int} (h : IsInt x n) : x.isFinite = true :=
  Represents.isFinite h

/-! ### Order -/

section Order

variable {m k n m' k' n' : Nat}

/-- A greater exponent makes up for any mantissa. -/
theorem lt_of_exponent_lt (high : m < 2 ^ 53) (low' : 2 ^ 52 ≤ m') (h : k < k') :
    m * 2 ^ k < m' * 2 ^ k' :=
  calc m * 2 ^ k
    _ < 2 ^ 53 * 2 ^ k := Nat.mul_lt_mul_of_pos_right high (Nat.two_pow_pos k)
    _ = 2 ^ 52 * 2 ^ (k + 1) := by rw [Nat.pow_succ]; omega
    _ ≤ m' * 2 ^ k' := Nat.mul_le_mul low' (Nat.pow_le_pow_right (by decide) h)

/-- Of normal doubles the exponents decide, and then the mantissas. -/
theorem compare_normal (low : 2 ^ 52 ≤ m) (high : m < 2 ^ 53) (value : m * 2 ^ k = n * 2 ^ 52)
    (low' : 2 ^ 52 ≤ m') (high' : m' < 2 ^ 53) (value' : m' * 2 ^ k' = n' * 2 ^ 52) :
    (compare ((k : Int) - 52) (k' - 52)).then (compare m m') = compare (n : Int) n' := by
  rcases Nat.lt_trichotomy k k' with below | rfl | above
  · have less := lt_of_exponent_lt high low' below
    have exponents : compare ((k : Int) - 52) (k' - 52) = .lt := compare_lt_iff_lt.mpr (by omega)
    have values : compare (n : Int) n' = .lt := compare_lt_iff_lt.mpr (by omega)
    rw [exponents, values]
    rfl
  · have scaled : m < m' ↔ n < n' := by
      rw [← Nat.mul_lt_mul_right (Nat.two_pow_pos k), value, value']
      omega
    have scaled' : m' < m ↔ n' < n := by
      rw [← Nat.mul_lt_mul_right (Nat.two_pow_pos k), value, value']
      omega
    rw [compare_eq_iff_eq.mpr rfl]
    rcases Nat.lt_trichotomy m m' with less | same | more
    · rw [compare_lt_iff_lt.mpr less, compare_lt_iff_lt.mpr (by omega)]
      rfl
    · rw [compare_eq_iff_eq.mpr same, compare_eq_iff_eq.mpr (by omega)]
      rfl
    · rw [compare_gt_iff_gt.mpr more, compare_gt_iff_gt.mpr (by omega)]
      rfl
  · have more := lt_of_exponent_lt high' low above
    have exponents : compare ((k : Int) - 52) (k' - 52) = .gt := compare_gt_iff_gt.mpr (by omega)
    have values : compare (n : Int) n' = .gt := compare_gt_iff_gt.mpr (by omega)
    rw [exponents, values]
    rfl

end Order

/-- A normal double is not zero. -/
theorem pos_of_normal {m k n : Nat} (pos : 0 < m) (value : m * 2 ^ k = n * 2 ^ 52) : 0 < n := by
  have := Nat.mul_pos pos (Nat.two_pow_pos k)
  omega

theorem compare_neg (a b : Int) : compare (-a) (-b) = (compare a b).swap := by
  rcases Int.lt_trichotomy a b with less | rfl | more
  · rw [compare_lt_iff_lt.mpr less, compare_gt_iff_gt.mpr (Int.neg_lt_neg less)]
    rfl
  · rw [compare_eq_iff_eq.mpr rfl, compare_eq_iff_eq.mpr rfl]
    rfl
  · rw [compare_gt_iff_gt.mpr more, compare_lt_iff_lt.mpr (Int.neg_lt_neg more)]
    rfl

theorem Represents.compare {u v : UnpackedFloat} {a b : Int} (ha : Represents u a)
    (hb : Represents v b) : u.compare v = some (Ord.compare a b) := by
  have less {a b : Int} (h : a < b) : some .lt = some (Ord.compare a b) :=
    congrArg some (compare_lt_iff_lt.mpr h).symm
  have more {a b : Int} (h : b < a) : some .gt = some (Ord.compare a b) :=
    congrArg some (compare_gt_iff_gt.mpr h).symm
  cases ha with
  | zero s =>
    cases hb with
    | zero t => rfl
    | finite t pos _ _ _ value =>
      have hn := pos_of_normal pos value
      cases t with
      | positive => exact less (Int.natCast_pos.mpr hn)
      | negative => exact more (Int.neg_neg_of_pos (Int.natCast_pos.mpr hn))
  | @finite s m k n pos low high hk value =>
    have hn := Int.natCast_pos.mpr (pos_of_normal pos value)
    cases hb with
    | zero t =>
      cases s with
      | positive => exact more hn
      | negative => exact less (Int.neg_neg_of_pos hn)
    | @finite t m' k' n' pos' low' high' hk' value' =>
      have hn' := Int.natCast_pos.mpr (pos_of_normal pos' value')
      have sizes := compare_normal low high value low' high' value'
      cases s with
      | positive =>
        cases t with
        | positive => exact congrArg some sizes
        | negative => exact more (Int.lt_trans (Int.neg_neg_of_pos hn') hn)
      | negative =>
        cases t with
        | positive => exact less (Int.lt_trans (Int.neg_neg_of_pos hn) hn')
        | negative =>
          exact congrArg some ((congrArg Ordering.swap sizes).trans (compare_neg _ _).symm)

theorem IsInt.lt_iff {x y : Float} {a b : Int} (hx : IsInt x a) (hy : IsInt y b) :
    x < y ↔ a < b := by
  have order := Represents.compare hx hy
  show decide ((x.toModel.unpack.compare y.toModel.unpack == some .lt) = true) = true ↔ _
  rw [order, decide_eq_true_iff, beq_iff_eq, Option.some_inj, compare_lt_iff_lt]

theorem IsInt.beq_eq {x y : Float} {a b : Int} (hx : IsInt x a) (hy : IsInt y b) :
    (x == y) = decide (a = b) := by
  have order := Represents.compare hx hy
  show (x.toModel.unpack.compare y.toModel.unpack == some .eq) = _
  rw [order, Bool.eq_iff_iff, beq_iff_eq, Option.some_inj, compare_eq_iff_eq, decide_eq_true_iff]

/-! ### Cutting off bits -/

/-- The bits of a mantissa and the two behind it, after a number of units was cut off from `m`. -/
structure Cut (m unit : Nat) (em : ExtendedMantissa) : Prop where
  mantissa : em.mantissa = m / unit
  roundBit : em.roundBit = decide (unit ≤ 2 * (m % unit))
  stickyBit : em.stickyBit = decide (2 * (m % unit) ≠ 0 ∧ 2 * (m % unit) ≠ unit)

theorem Cut.shiftRightOne {m unit : Nat} {em : ExtendedMantissa} (h : Cut m unit em)
    (unit_pos : 0 < unit) : Cut m (unit * 2) em.shiftRightOne := by
  have rest : m % (unit * 2) = m % unit + unit * (m / unit % 2) := Nat.mod_mul
  have small := Nat.mod_lt m unit_pos
  have bit := Nat.mod_two_eq_zero_or_one (m / unit)
  refine ⟨?_, ?_, ?_⟩
  · show em.mantissa / 2 = _
    rw [h.mantissa, Nat.div_div_eq_div_mul]
  · show (em.mantissa % 2 != 0) = _
    rw [h.mantissa, rest, Bool.eq_iff_iff, bne_iff_ne, decide_eq_true_iff]
    rcases bit with even | odd
    · rw [even, Nat.mul_zero]
      omega
    · rw [odd, Nat.mul_one]
      omega
  · show (em.roundBit || em.stickyBit) = _
    rw [h.roundBit, h.stickyBit, rest, Bool.eq_iff_iff, Bool.or_eq_true, decide_eq_true_iff,
      decide_eq_true_iff, decide_eq_true_iff]
    rcases bit with even | odd
    · rw [even, Nat.mul_zero]
      omega
    · rw [odd, Nat.mul_one]
      omega

theorem Cut.roundedMantissa {m unit : Nat} {em : ExtendedMantissa} (h : Cut m unit em)
    (unit_pos : 0 < unit) : em.roundedMantissa = roundDiv m unit := by
  obtain ⟨q, round, sticky⟩ := em
  obtain ⟨rfl, hround, hsticky⟩ := h
  dsimp only at hround hsticky
  unfold roundDiv
  cases round with
  | false =>
    have := of_decide_eq_false hround.symm
    rw [if_pos (by omega)]
    cases sticky <;> rfl
  | true =>
    have := of_decide_eq_true hround.symm
    rw [if_neg (by omega)]
    cases sticky with
    | false =>
      have := of_decide_eq_false hsticky.symm
      rw [if_pos (by omega)]
      rfl
    | true =>
      have := of_decide_eq_true hsticky.symm
      rw [if_neg (by omega)]
      rfl

/-- `m` moved to the right by `k` bits. -/
def shifted (m k : Nat) : ExtendedMantissa :=
  Nat.repeat ExtendedMantissa.shiftRightOne k ⟨m, false, false⟩

theorem cut_shifted (m k : Nat) : Cut m (2 ^ k) (shifted m k) := by
  induction k with
  | zero =>
    have whole : 2 * (m % 2 ^ 0) = 0 := by omega
    exact ⟨(Nat.div_one m).symm, by rw [whole]; rfl, by rw [whole]; rfl⟩
  | succ k ih => exact ih.shiftRightOne (Nat.two_pow_pos k)

/-! ### Whole parts -/

/-- Moving the point of a normal double that is an integer to its end. -/
theorem shifted_normal {m k n : Nat} (value : m * 2 ^ k = n * 2 ^ 52) :
    m <<< (k - 52) / 2 ^ (52 - k) = n := by
  rw [Nat.shiftLeft_eq]
  rcases Nat.le_total 52 k with large | small
  · obtain ⟨j, rfl⟩ := Nat.le.dest large
    rw [Nat.pow_add, Nat.mul_comm (2 ^ 52), ← Nat.mul_assoc] at value
    rw [Nat.add_sub_cancel_left, Nat.sub_eq_zero_of_le large, Nat.pow_zero, Nat.div_one]
    exact Nat.mul_right_cancel (Nat.two_pow_pos 52) value
  · obtain ⟨j, hj⟩ := Nat.le.dest small
    have scaled : m = n * 2 ^ j := by
      rw [← hj, Nat.pow_add, Nat.mul_comm (2 ^ k), ← Nat.mul_assoc] at value
      exact Nat.mul_right_cancel (Nat.two_pow_pos k) value
    rw [Nat.sub_eq_zero_of_le small, ← hj, Nat.add_sub_cancel_left, Nat.pow_zero, Nat.mul_one,
      scaled]
    exact Nat.mul_div_cancel n (Nat.two_pow_pos j)

theorem Represents.toInt {u : UnpackedFloat} {n : Int} (h : Represents u n) (low high : Int) :
    u.toInt low high = n := by
  cases h with
  | zero s => rfl
  | @finite s m k n pos _ _ _ value =>
    have left : ((k : Int) - 52 - 0).toNat = k - 52 := by omega
    have right : (0 - ((k : Int) - 52 - (k - 52 : Nat))).toNat = 52 - k := by omega
    show UnpackedFloat.roundToInt s m ((k : Int) - 52) = _
    simp only [UnpackedFloat.roundToInt, decreaseExponent, shiftToExponent, left, right]
    have mantissa : (shifted (m <<< (k - 52)) (52 - k)).mantissa = n :=
      (cut_shifted _ _).mantissa.trans (shifted_normal value)
    exact congrArg (fun n : Nat => s.apply n) mantissa

/-- Below zero and past `2 ^ 64 - 1` the nearest word stands in. -/
theorem IsInt.toUInt64 {x : Float} {n : Int} (h : IsInt x n) :
    x.toUInt64.toNat = min n.toNat (UInt64.size - 1) := by
  show (UInt64.ofNatClamp (x.toModel.unpack.toInt 0 (UInt64.size - 1)).toNat).toNat = _
  rw [Represents.toInt h]
  rcases Nat.lt_or_ge n.toNat UInt64.size with fits | large
  · rw [UInt64.toNat_ofNatClamp_of_lt fits]
    omega
  · rw [UInt64.toNat_ofNatClamp_of_le large]
    omega

end ByteSchema.Binary64
