import ByteSchema.Expr.Arithmetic

/-!
# Small numbers

Numbers that fit in 64 bits are words, and lengths.
-/

namespace ByteSchema

namespace Word

theorem ofInt?_eq (n : Int) : ofInt? n =
    if -0x8000000000000000 ≤ n ∧ n < 0x8000000000000000 then some (Int64.ofInt n) else none := by
  have max : Int64.maxValue.toInt = 0x7fffffffffffffff := by decide
  have min : Int64.minValue.toInt = -0x8000000000000000 := by decide
  have range : Int64.minValue.toInt ≤ n ∧ n ≤ Int64.maxValue.toInt ↔
      -0x8000000000000000 ≤ n ∧ n < 0x8000000000000000 := by omega
  simp only [ofInt?, range]

theorem ofInt?_toInt (n : Int64) : ofInt? n.toInt = some n := by
  rw [ofInt?_eq, if_pos ⟨n.le_toInt, n.toInt_lt⟩, Int64.ofInt_toInt]

theorem ofInt?_natCast {n : Nat} (h : n < 0x8000000000000000) :
    ofInt? n = some (Int64.ofNat n) := by
  rw [ofInt?_eq, if_pos (by omega)]
  rfl

end Word

theorem Value.ofNat_of_lt {n : Nat} (h : n < 0x8000000000000000) :
    Value.ofNat n = .int (Int64.ofNat n) := by
  rw [Value.ofNat, Word.ofInt?_natCast h]

theorem Value.ofNat_of_le {n : Nat} (h : 0x8000000000000000 ≤ n) :
    Value.ofNat n = .float n.toUInt64.toFloat := by
  rw [Value.ofNat, Word.ofInt?_eq, if_neg (by omega)]

theorem Value.toLength_ofNat {n : Nat} (h : n < 0x8000000000000000) :
    (Value.int (Int64.ofNat n)).toLength = .ok n := by
  have value : (Int64.ofNat n).toInt = n := by
    rw [Int64.toInt_ofNat_of_lt]
    exact h
  have nonneg : 0 ≤ Int64.ofNat n := by
    rw [Int64.le_iff_toInt_le, value]
    exact Int.natCast_nonneg n
  show (if 0 ≤ Int64.ofNat n then pure (Int64.ofNat n).toInt.toNat else throw _ : Except Error Nat) = _
  rw [if_pos nonneg, value]
  rfl

namespace Operator

variable {onInts : Int → Int → Option Int64} {onFloats : Float → Float → Float} {lhs rhs : Value}
  {a b : Int64}

theorem arithmetic_of_some {r : Int64} (ha : lhs.toNumber = .ok (.int a))
    (hb : rhs.toNumber = .ok (.int b)) (h : onInts a.toInt b.toInt = some r) :
    arithmetic onInts onFloats lhs rhs = .ok (.int r) := by
  simp only [arithmetic, ha, hb, bind, Except.bind, h]
  rfl

theorem arithmetic_of_none (ha : lhs.toNumber = .ok (.int a)) (hb : rhs.toNumber = .ok (.int b))
    (h : onInts a.toInt b.toInt = none) : arithmetic onInts onFloats lhs rhs =
      .ok (.float (onFloats (Binary64.ofInt64 a) (Binary64.ofInt64 b))) := by
  simp only [arithmetic, ha, hb, bind, Except.bind, h]
  rfl

end Operator

/-! ### Bits -/

theorem Word.ofNat_and (m n : Nat) : Int64.ofNat m &&& Int64.ofNat n = Int64.ofNat (m &&& n) := by
  rw [← Int64.ofBitVec_ofNat, ← Int64.ofBitVec_ofNat, ← Int64.ofBitVec_and, ← BitVec.ofNat_and,
    Int64.ofBitVec_ofNat]

theorem Word.ofNat_shiftRight {n k : Nat} (hn : n < 0x8000000000000000) (hk : k < 64) :
    Int64.ofNat n >>> Int64.ofNat k = Int64.ofNat (n >>> k) := by
  have positive : (BitVec.ofNat 64 n).msb = false := by
    rw [BitVec.msb_eq_false_iff_two_mul_lt, BitVec.toNat_ofNat]
    omega
  have all : ∀ k < 64, ((BitVec.ofNat 64 k).smod 64).toNat = k := by decide
  have below : n >>> k ≤ n := Nat.shiftRight_le n k
  apply Int64.toBitVec_inj.mp
  apply BitVec.eq_of_toNat_eq
  rw [Int64.toBitVec_shiftRight, BitVec.sshiftRight', Int64.toBitVec_ofNat', Int64.toBitVec_ofNat',
    Int64.toBitVec_ofNat', all k hk, BitVec.sshiftRight_eq_of_msb_false positive,
    BitVec.toNat_ushiftRight, BitVec.toNat_ofNat, BitVec.toNat_ofNat, Nat.mod_eq_of_lt (by omega),
    Nat.mod_eq_of_lt (by omega)]

end ByteSchema
