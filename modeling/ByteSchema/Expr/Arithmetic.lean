import ByteSchema.Value.Number
import ByteSchema.Value.Path

/-!
# Operators on values

`Operator.apply` is integer arithmetic while operands and result are integers of 64 bits, and
double arithmetic otherwise; `+` joins texts. Comparison, logic and lookup never fail.
-/

namespace ByteSchema

namespace Operator

/-- The quotient, when the division leaves nothing over. -/
def quotient? (a b : Int) : Option Int64 :=
  if b ≠ 0 ∧ a.tmod b = 0 then Word.ofInt? (a.tdiv b) else none

/-- The remainder with the sign of `a`; the quotient has to be in range too. -/
def remainder? (a b : Int) : Option Int64 :=
  if b ≠ 0 ∧ (Word.ofInt? (a.tdiv b)).isSome then Word.ofInt? (a.tmod b) else none

/-- The power, when the exponent has 32 bits. -/
def power? (a b : Int) : Option Int64 :=
  if 0 ≤ b ∧ b < UInt32.size then Word.pow? (Int64.ofInt a) b.toNat else none

/-- Integers while they fit, doubles otherwise. -/
def arithmetic (onInts : Int → Int → Option Int64) (onFloats : Float → Float → Float)
    (lhs rhs : Value) : Except Error Value := do
  let a ← lhs.toNumber
  let b ← rhs.toNumber
  match a, b with
  | .int m, .int n =>
    match onInts m.toInt n.toInt with
    | some r => return .int r
    | none => return .float (onFloats (Binary64.ofInt64 m) (Binary64.ofInt64 n))
  | _, _ => return .float (onFloats (← a.toFloat) (← b.toFloat))

/-- Two doubles in order; a NaN has no place in it. -/
def compareFloats (x y : Float) : Option Ordering :=
  if x < y then some .lt else if x == y then some .eq else if y < x then some .gt else none

/-- Texts by the code points of their characters, all else as numbers. -/
def order? (lhs rhs : Value) : Option Ordering :=
  match lhs, rhs with
  | .text s, .text t => some (compareOfLessAndEq s t)
  | _, _ =>
    match lhs.toFloat, rhs.toFloat with
    | .ok x, .ok y => compareFloats x y
    | _, _ => none

/-- A comparison; what has no order compares false. -/
def compares (test : Ordering → Bool) (lhs rhs : Value) : Value :=
  .bool (match order? lhs rhs with
    | some o => test o
    | none => false)

/-- The value as bits: an integer, or the whole part of a double. -/
def toBits (v : Value) : Except Error Int64 := do
  match ← v.toNumber with
  | .int n => return n
  | w => return Binary64.toInt64 (← w.toFloat)

/-- A shift distance counts modulo 64. -/
def toShift (v : Value) : Except Error Int64 := do
  return (← toBits v) &&& 63

def isText : Value → Bool
  | .text _ => true
  | _ => false

def apply (op : Operator) (lhs rhs : Value) : Except Error Value :=
  match op with
  | add =>
    if isText lhs || isText rhs then .ok (.text (lhs.display ++ rhs.display))
    else arithmetic (fun a b => Word.ofInt? (a + b)) (· + ·) lhs rhs
  | sub => arithmetic (fun a b => Word.ofInt? (a - b)) (· - ·) lhs rhs
  | mul => arithmetic (fun a b => Word.ofInt? (a * b)) (· * ·) lhs rhs
  | div => arithmetic quotient? (· / ·) lhs rhs
  | rem => arithmetic remainder? Binary64.remainder lhs rhs
  | pow => arithmetic power? Float.pow lhs rhs
  | eq => .ok (.bool (lhs.looseEq rhs))
  | ne => .ok (.bool (!lhs.looseEq rhs))
  | gt => .ok (compares (· == .gt) lhs rhs)
  | ge => .ok (compares (· != .lt) lhs rhs)
  | lt => .ok (compares (· == .lt) lhs rhs)
  | le => .ok (compares (· != .gt) lhs rhs)
  | and => .ok (.bool (lhs.isTruthy && rhs.isTruthy))
  | or => .ok (.bool (lhs.isTruthy || rhs.isTruthy))
  | bitAnd => do return .int ((← toBits lhs) &&& (← toBits rhs))
  | bitOr => do return .int ((← toBits lhs) ||| (← toBits rhs))
  | shl => do return .int ((← toBits lhs) <<< (← toShift rhs))
  | shr => do return .int ((← toBits lhs) >>> (← toShift rhs))
  | access => .ok ((lhs.child rhs.display).getD .undefined)

end Operator

end ByteSchema
