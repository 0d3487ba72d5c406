import ByteSchema.Error
import ByteSchema.Number.Numeral
import ByteSchema.Text.Blank
import ByteSchema.Text.Quoted

/-!
# Values as numbers

Booleans count as 0 and 1, and a text as the number it spells: in base sixteen after `0x`, else
as a decimal integer or fraction. `looseEq` compares numbers and texts through these readings.
-/

namespace ByteSchema

/-- A text of base sixteen digits; a value of `2 ^ 64` or more is no number. -/
def Numeral.word? (cs : List Char) : Option Value :=
  match Numeral.unsigned? 16 cs with
  | some n => if n < UInt64.size then some (.ofNat n) else none
  | none => none

/-- A decimal integer where it fits, else a finite double. -/
def Numeral.decimal? (cs : List Char) : Option Value :=
  let fraction := match Numeral.float? cs with
    | some x => if x.isFinite then some (.float x) else none
    | none => none
  match (Numeral.integer? cs).bind Word.ofInt? with
  | some n => some (.int n)
  | none => fraction

/-- The number a text spells, white space around it aside. -/
def Numeral.value? (s : String) : Option Value :=
  match Text.trim s.toList with
  | [] => none
  | '0' :: 'x' :: cs => word? cs
  | '0' :: 'X' :: cs => word? cs
  | cs => decimal? cs

namespace Value

/-- An integer or a double. -/
def toNumber : Value → Except Error Value
  | .bool b => .ok (.int (if b then 1 else 0))
  | .int n => .ok (.int n)
  | .float x => .ok (.float x)
  | .text s =>
    match Numeral.value? s with
    | some v => .ok v
    | none => .error (.coercion (Text.quoted s) "number")
  | v => .error (.coercion v.typeName "number")

/-- A number as a double, without coercion. -/
def asFloat? : Value → Option Float
  | .int n => some (Binary64.ofInt64 n)
  | .float x => some x
  | _ => none

def toFloat (v : Value) : Except Error Float := do
  match ← v.toNumber with
  | .int n => return Binary64.ofInt64 n
  | .float x => return x
  | w => throw (.coercion w.typeName "number")

/-- A count of bytes or items. A fraction is cut off, and what is past `2 ^ 64 - 1` stays there. -/
def toLength (v : Value) : Except Error Nat := do
  match ← v.toNumber with
  | .int n =>
    if 0 ≤ n then return n.toInt.toNat else throw (.invalidLength (Binary64.ofInt64 n))
  | .float x =>
    if x.isFinite && 0.0 ≤ x then return x.toUInt64.toNat else throw (.invalidLength x)
  | w => throw (.coercion w.typeName "length")

/-- Equality of the readings as doubles; what has none equals nothing. -/
def numericEq (a b : Value) : Bool :=
  match a.toFloat, b.toFloat with
  | .ok x, .ok y => x == y
  | _, _ => false

/-- Equality that takes numbers, booleans and numeric texts for each other. -/
def looseEq (a b : Value) : Bool :=
  match a, b with
  | .int m, .int n => m == n
  | .text s, .text t => s == t
  | .undefined, .undefined => true
  | .int _, .float _ | .int _, .bool _ | .int _, .text _
  | .float _, .int _ | .float _, .float _ | .float _, .bool _ | .float _, .text _
  | .bool _, .int _ | .bool _, .float _ | .bool _, .bool _ | .bool _, .text _
  | .text _, .int _ | .text _, .float _ | .text _, .bool _ => numericEq a b
  | _, _ => a.same b

end Value

end ByteSchema
