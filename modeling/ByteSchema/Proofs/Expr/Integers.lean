import ByteSchema.Proofs.Number.Nearest
import ByteSchema.Proofs.Value.Words

/-!
# Operators on integers

Order is that of the doubles nearest to the integers, equality that of the integers themselves, so
the six comparisons agree as long as different integers have different doubles. Bits are those of an
integer, and of `2 ^ 63 - 1` where a number is past that.
-/

namespace ByteSchema

open Binary64

/-! ### Order -/

theorem compareFloats_ofInt64 (a b : Int64) :
    Operator.compareFloats (ofInt64 a) (ofInt64 b) =
      some (compare (nearest a.toInt) (nearest b.toInt)) := by
  have ha := isInt_ofInt64 a
  have hb := isInt_ofInt64 b
  unfold Operator.compareFloats
  rw [ha.beq_eq hb]
  rcases Int.lt_trichotomy (nearest a.toInt) (nearest b.toInt) with less | same | more
  · rw [if_pos ((ha.lt_iff hb).mpr less), compare_lt_iff_lt.mpr less]
  · rw [if_neg (fun h => by have := (ha.lt_iff hb).mp h; omega), if_pos (decide_eq_true same),
      compare_eq_iff_eq.mpr same]
  · rw [if_neg (fun h => by have := (ha.lt_iff hb).mp h; omega),
      if_neg (by rw [decide_eq_true_iff]; omega), if_pos ((hb.lt_iff ha).mpr more),
      compare_gt_iff_gt.mpr more]

theorem compares_ints (test : Ordering → Bool) (a b : Int64) :
    Operator.compares test (.int a) (.int b) =
      .bool (test (compare (nearest a.toInt) (nearest b.toInt))) := by
  have order : Operator.order? (.int a) (.int b) =
      Operator.compareFloats (ofInt64 a) (ofInt64 b) := rfl
  rw [Operator.compares, order, compareFloats_ofInt64]

/-- The four operators order the integers `a` and `b` as `x` and `y` are ordered. -/
structure OrderedAs (a b : Int64) (x y : Int) : Prop where
  lt : Operator.lt.apply (.int a) (.int b) = .ok (.bool (decide (x < y)))
  le : Operator.le.apply (.int a) (.int b) = .ok (.bool (decide (x ≤ y)))
  gt : Operator.gt.apply (.int a) (.int b) = .ok (.bool (decide (y < x)))
  ge : Operator.ge.apply (.int a) (.int b) = .ok (.bool (decide (y ≤ x)))

theorem orderedAs_nearest (a b : Int64) : OrderedAs a b (nearest a.toInt) (nearest b.toInt) where
  lt := by
    refine congrArg Except.ok ((compares_ints _ a b).trans (congrArg Value.bool ?_))
    rw [Bool.eq_iff_iff, beq_iff_eq, compare_lt_iff_lt, decide_eq_true_iff]
  le := by
    refine congrArg Except.ok ((compares_ints _ a b).trans (congrArg Value.bool ?_))
    rw [Bool.eq_iff_iff, bne_iff_ne, ne_eq, compare_gt_iff_gt, decide_eq_true_iff]
    omega
  gt := by
    refine congrArg Except.ok ((compares_ints _ a b).trans (congrArg Value.bool ?_))
    rw [Bool.eq_iff_iff, beq_iff_eq, compare_gt_iff_gt, decide_eq_true_iff]
  ge := by
    refine congrArg Except.ok ((compares_ints _ a b).trans (congrArg Value.bool ?_))
    rw [Bool.eq_iff_iff, bne_iff_ne, ne_eq, compare_lt_iff_lt, decide_eq_true_iff]
    omega

theorem OrderedAs.congr {a b : Int64} {x y x' y' : Int} (h : OrderedAs a b x y)
    (less : x < y ↔ x' < y') (more : y < x ↔ y' < x') : OrderedAs a b x' y' where
  lt := by rw [h.lt, decide_eq_decide.mpr less]
  le := by rw [h.le, decide_eq_decide.mpr (show x ≤ y ↔ x' ≤ y' by omega)]
  gt := by rw [h.gt, decide_eq_decide.mpr more]
  ge := by rw [h.ge, decide_eq_decide.mpr (show y ≤ x ↔ y' ≤ x' by omega)]

theorem OrderedAs.unique {a b : Int64} {x y x' y' : Int} (h : OrderedAs a b x y)
    (h' : OrderedAs a b x' y') (same : x = y) : x' = y' := by
  have less := h.lt.symm.trans h'.lt
  have more := h.gt.symm.trans h'.gt
  simp only [Except.ok.injEq, Value.bool.injEq, decide_eq_decide] at less more
  omega

/-- Integers are ordered as the doubles nearest to them, and equal if they are the same integer. So
the order of two is right if and only if they are one or have different nearest doubles, which they
have if one of them is below `2 ^ 53`. -/
theorem comparisons_of_ints (a b : Int64) :
    OrderedAs a b (nearest a.toInt) (nearest b.toInt) ∧
    Operator.eq.apply (.int a) (.int b) = .ok (.bool (decide (a.toInt = b.toInt))) ∧
    Operator.ne.apply (.int a) (.int b) = .ok (.bool (decide (a.toInt ≠ b.toInt))) ∧
    (OrderedAs a b a.toInt b.toInt ↔ (nearest a.toInt = nearest b.toInt → a.toInt = b.toInt)) ∧
    (a.toInt.natAbs < 2 ^ 53 ∨ b.toInt.natAbs < 2 ^ 53 → OrderedAs a b a.toInt b.toInt) := by
  have nearest_order := orderedAs_nearest a b
  have apart (h : nearest a.toInt = nearest b.toInt → a.toInt = b.toInt) :
      OrderedAs a b a.toInt b.toInt :=
    nearest_order.congr (nearest_lt_iff h) (nearest_lt_iff fun same => (h same.symm).symm)
  have equal : (a == b) = decide (a.toInt = b.toInt) := by
    rw [Bool.eq_iff_iff, beq_iff_eq, decide_eq_true_iff, Int64.toInt_inj]
  refine ⟨nearest_order, congrArg (Except.ok ∘ Value.bool) equal, ?_,
    ⟨nearest_order.unique, apart⟩, fun below => apart (nearest_inj_of_lt below)⟩
  exact congrArg (Except.ok ∘ Value.bool) ((congrArg not equal).trans decide_not.symm)

/-- Past `2 ^ 53` a number and its neighbour can be neither equal nor in order. -/
theorem comparisons_of_ints_neighbours :
    Operator.gt.apply (.int 9007199254740993) (.int 9007199254740992) = .ok (.bool false) ∧
    Operator.eq.apply (.int 9007199254740993) (.int 9007199254740992) = .ok (.bool false) ∧
    Operator.lt.apply (.int 9007199254740993) (.int 9007199254740992) = .ok (.bool false) ∧
    Operator.le.apply (.int 9007199254740993) (.int 9007199254740992) = .ok (.bool true) :=
  ⟨rfl, rfl, rfl, rfl⟩

/-- From `2 ^ 53` to `2 ^ 54` every other integer has a double of its own. -/
theorem comparisons_of_ints_apart :
    OrderedAs (-7) 9223372036854775807 (-7) 9223372036854775807 ∧
    OrderedAs 9007199254740994 9007199254740992 9007199254740994 9007199254740992 ∧
    ¬ OrderedAs 9007199254740993 9007199254740992 9007199254740993 9007199254740992 := by
  have iff (a b : Int64) := (comparisons_of_ints a b).2.2.2.1
  refine ⟨(comparisons_of_ints (-7) 9223372036854775807).2.2.2.2 (by decide), ?_, fun ordered => ?_⟩
  · exact (iff 9007199254740994 9007199254740992).mpr (by decide)
  · exact absurd ((iff 9007199254740993 9007199254740992).mp ordered) (by decide)

/-! ### Bits -/

theorem toBits_ofNat {n : Nat} (h : n < 2 ^ 64) :
    Operator.toBits (.ofNat n) = .ok (Int64.ofNat (min n (2 ^ 63 - 1))) := by
  rcases Nat.lt_or_ge n (2 ^ 63) with fits | large
  · rw [Value.ofNat_of_lt fits, Nat.min_eq_left (by omega)]
    rfl
  -- The double is `2 ^ 63` or more, and counts as the greatest integer.
  · have word : n.toUInt64.toNat = n := UInt64.toNat_ofNat_of_lt' h
    have double := isInt_toFloat n.toUInt64
    rw [word] at double
    have above : 2 ^ 63 ≤ nearestNat n := by
      have fixed : nearestNat (2 ^ 63) = 2 ^ 63 := by decide
      exact fixed ▸ nearestNat_mono large
    have greatest : toInt64 n.toUInt64.toFloat = Int64.ofNat (2 ^ 63 - 1) := by
      have max_eq : Int64.maxValue.toInt = 2 ^ 63 - 1 := by decide
      have min_eq : Int64.minValue.toInt = -2 ^ 63 := by decide
      rw [double.toInt64, Int.min_eq_right (by omega), Int.max_eq_right (by omega)]
      rfl
    rw [Value.ofNat_of_le large, Nat.min_eq_right (by omega)]
    exact congrArg Except.ok greatest

theorem toShift_ofNat {k : Nat} (h : k < 64) :
    Operator.toShift (.int (Int64.ofNat k)) = .ok (Int64.ofNat k) := by
  have low : Int64.ofNat k &&& Int64.ofNat 63 = Int64.ofNat k := by
    rw [Word.ofNat_and, Nat.and_two_pow_sub_one_eq_mod k 6, Nat.mod_eq_of_lt h]
  exact congrArg Except.ok low

theorem bitAnd_of_toBits {v w : Value} {a b : Int64} (ha : Operator.toBits v = .ok a)
    (hb : Operator.toBits w = .ok b) : Operator.bitAnd.apply v w = .ok (.int (a &&& b)) := by
  show (do return .int ((← Operator.toBits v) &&& (← Operator.toBits w)) : Except Error Value) = _
  rw [ha, hb]
  rfl

theorem shr_of_toBits {v w : Value} {a b : Int64} (ha : Operator.toBits v = .ok a)
    (hb : Operator.toShift w = .ok b) : Operator.shr.apply v w = .ok (.int (a >>> b)) := by
  show (do return .int ((← Operator.toBits v) >>> (← Operator.toShift w)) : Except Error Value) = _
  rw [ha, hb]
  rfl

/-- A number of 64 bits counts as its bits below `2 ^ 63`, and as `2 ^ 63 - 1` from there on. -/
theorem bits_of_unsigned {n m k : Nat} (hn : n < 2 ^ 64) (hm : m < 2 ^ 63) (hk : k < 64) :
    (∃ r : Int64, Operator.bitAnd.apply (.ofNat n) (.int (Int64.ofNat m)) = .ok (.int r) ∧
      r.toInt = (min n (2 ^ 63 - 1) &&& m : Nat)) ∧
    ∃ r : Int64, Operator.shr.apply (.ofNat n) (.int (Int64.ofNat k)) = .ok (.int r) ∧
      r.toInt = (min n (2 ^ 63 - 1) / 2 ^ k : Nat) := by
  have bits := toBits_ofNat hn
  have below : min n (2 ^ 63 - 1) < 2 ^ 63 := by omega
  generalize min n (2 ^ 63 - 1) = b at *
  have both : b &&& m < 2 ^ 63 := Nat.lt_of_le_of_lt Nat.and_le_right hm
  have shifted : b / 2 ^ k < 2 ^ 63 := Nat.lt_of_le_of_lt (Nat.div_le_self b _) below
  refine ⟨⟨Int64.ofNat (b &&& m), ?_, Int64.toInt_ofNat_of_lt both⟩,
    ⟨Int64.ofNat (b / 2 ^ k), ?_, Int64.toInt_ofNat_of_lt shifted⟩⟩
  · rw [← Word.ofNat_and]
    exact bitAnd_of_toBits bits rfl
  · rw [← Nat.shiftRight_eq_div_pow, ← Word.ofNat_shiftRight below hk]
    exact shr_of_toBits bits (toShift_ofNat hk)

/-- Where the first of the 64 bits is set, the operators see the others set as well. -/
theorem bits_of_unsigned_top :
    Operator.bitAnd.apply (.ofNat 0x8000000000000000) (.int 1) = .ok (.int 1) ∧
    0x8000000000000000 &&& 1 = 0 ∧
    Operator.shr.apply (.ofNat 0xffffffffffffffff) (.int 1) = .ok (.int 0x3fffffffffffffff) ∧
    0xffffffffffffffff / 2 ^ 1 = 0x7fffffffffffffff :=
  ⟨rfl, rfl, rfl, rfl⟩

/-- Below `2 ^ 63` the bits are those of the number itself. -/
theorem bits_of_unsigned_read :
    (∃ r : Int64, Operator.bitAnd.apply (.ofNat 0x7fffffffffffffff) (.int (Int64.ofNat 6)) =
      .ok (.int r) ∧ r.toInt = 6) ∧
    ∃ r : Int64, Operator.shr.apply (.ofNat 0x7fffffffffffffff) (.int (Int64.ofNat 62)) =
      .ok (.int r) ∧ r.toInt = 1 :=
  bits_of_unsigned (n := 0x7fffffffffffffff) (m := 6) (k := 62) (by decide) (by decide) (by decide)

end ByteSchema
