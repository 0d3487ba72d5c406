import ByteSchema.Proofs.Number.Nearest
import ByteSchema.Proofs.Value.Numerals

/-!
# Integers and their decimal texts

The text that shows an integer reads as that integer, exactly. A number and a text are compared by
the doubles nearest to them though, so an integer equals the texts of all integers with the same
nearest double: `looseEq_decimal`.
-/

namespace ByteSchema

open Binary64

theorem Value.numericEq_decimal (a b : Int64) :
    numericEq (.int a) (.text (displayInt b)) = decide (nearest a.toInt = nearest b.toInt) ∧
    numericEq (.text (displayInt b)) (.int a) = decide (nearest a.toInt = nearest b.toInt) := by
  have number : toFloat (.int a) = .ok (ofInt64 a) := rfl
  have text : toFloat (.text (displayInt b)) = .ok (ofInt64 b) := by
    simp only [toFloat, toNumber, Numeral.value?_displayInt]
    rfl
  have ha := isInt_ofInt64 a
  have hb := isInt_ofInt64 b
  constructor
  · simp only [numericEq, number, text]
    exact ha.beq_eq hb
  · simp only [numericEq, number, text]
    rw [hb.beq_eq ha, decide_eq_decide]
    exact eq_comm

/-- An integer equals the decimal text of an integer if both have one nearest double. So this is
equality of the integers for two that are one or have different nearest doubles, which they have if
one of them is below `2 ^ 53`. -/
theorem looseEq_decimal (a b : Int64) :
    (Value.int a).looseEq (.text (Value.displayInt b)) =
      decide (nearest a.toInt = nearest b.toInt) ∧
    (Value.text (Value.displayInt b)).looseEq (.int a) =
      (Value.int a).looseEq (.text (Value.displayInt b)) ∧
    ((Value.int a).looseEq (.text (Value.displayInt b)) = decide (a = b) ↔
      (nearest a.toInt = nearest b.toInt → a = b)) ∧
    (a.toInt.natAbs < 2 ^ 53 ∨ b.toInt.natAbs < 2 ^ 53 →
      (Value.int a).looseEq (.text (Value.displayInt b)) = decide (a = b)) := by
  have ⟨after, before⟩ := Value.numericEq_decimal a b
  have number : (Value.int a).looseEq (.text (Value.displayInt b)) =
      decide (nearest a.toInt = nearest b.toInt) := after
  have exact_iff : decide (nearest a.toInt = nearest b.toInt) = decide (a = b) ↔
      (nearest a.toInt = nearest b.toInt → a = b) := by
    rw [decide_eq_decide]
    exact ⟨Iff.mp, fun h => ⟨h, fun same => by rw [same]⟩⟩
  rw [number]
  refine ⟨rfl, before, exact_iff, fun below => exact_iff.mpr fun same => ?_⟩
  exact Int64.toInt_inj.mp (nearest_inj_of_lt below same)

/-- `2 ^ 53 + 1` equals a text that shows another integer. -/
theorem looseEq_decimal_neighbour :
    Value.displayInt 9007199254740992 = "9007199254740992" ∧
    (Value.int 9007199254740993).looseEq (.text "9007199254740992") = true ∧
    (Value.text "9007199254740992").looseEq (.int 9007199254740993) = true :=
  ⟨rfl, rfl, rfl⟩

theorem looseEq_decimal_apart :
    (Value.int (-7)).looseEq (.text (Value.displayInt 9223372036854775807)) = false ∧
    (Value.int 42).looseEq (.text (Value.displayInt 42)) = true :=
  ⟨(looseEq_decimal (-7) 9223372036854775807).2.2.2 (by decide),
    (looseEq_decimal 42 42).2.2.2 (by decide)⟩

end ByteSchema
