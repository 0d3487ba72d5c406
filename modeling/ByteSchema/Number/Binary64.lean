/-!
# Double precision numbers as integers times powers of two

`parts` opens a finite double as `± mantissa * 2 ^ exponent` and `ofParts` closes it again. The
conversions below say what happens at the ends of a range: they saturate, and a NaN counts as 0.
-/

namespace ByteSchema.Binary64

/-- A finite double, `mantissa * 2 ^ exponent` or its negative. -/
structure Parts where
  negative : Bool
  mantissa : Nat
  exponent : Int

def isNegative (x : Float) : Bool := x.toBits.toNat.testBit 63

/-- The bit above the 52 stored ones, set in every mantissa but the smallest. -/
def hiddenBit : Nat := 0x10000000000000

/-- The parts of a finite `x`. The mantissa is below `2 ^ 53`. -/
def parts (x : Float) : Parts :=
  let bits := x.toBits.toNat
  let biased : Nat := bits / hiddenBit % 0x800
  let fraction := bits % hiddenBit
  if biased = 0 then ⟨isNegative x, fraction, -1074⟩
  else ⟨isNegative x, hiddenBit + fraction, biased - 1075⟩

/-- The double with these parts, for a mantissa below `2 ^ 53` and an exponent of at least -1074
that leave the value in range. -/
def ofParts (p : Parts) : Float :=
  let shift := min (52 - p.mantissa.log2) (p.exponent + 1074).toNat
  let mantissa := p.mantissa <<< shift
  let biased := if mantissa < hiddenBit then 0 else (p.exponent - shift + 1075).toNat
  let sign := if p.negative then 0x8000000000000000 else 0
  Float.ofBits (UInt64.ofNat (sign + biased * hiddenBit + mantissa % hiddenBit))

def nan : Float := 0.0 / 0.0

def infinity : Float := 1.0 / 0.0

/-- The nearest double, a tie going to the even mantissa. -/
def ofInt64 (n : Int64) : Float :=
  let size := n.toInt.natAbs.toUInt64.toFloat
  if n < 0 then -size else size

/-- The whole part of `x`, cut to the range of `Int64`. -/
def toInt64 (x : Float) : Int64 :=
  let size : Int := x.abs.toUInt64.toNat
  if x < 0.0 then Int64.ofInt (max (-size) Int64.minValue.toInt)
  else Int64.ofInt (min size Int64.maxValue.toInt)

/-- The whole part of `x` is no multiple of two. What is not finite has no such multiple. -/
def isOdd (x : Float) : Bool :=
  if !x.isFinite then true
  else if x.abs < 9007199254740992.0 then x.abs.toUInt64.toNat % 2 == 1
  else false

/-- What is left of `x` after taking away `y` a whole number of times, with the sign of `x`. The
result is exact. -/
def remainder (x y : Float) : Float :=
  if x.isNaN || y.isNaN || x.isInf || y == 0.0 then nan
  else if y.isInf then x
  else
    let p := parts x
    let q := parts y
    let e := min p.exponent q.exponent
    let a := p.mantissa <<< (p.exponent - e).toNat
    let b := q.mantissa <<< (q.exponent - e).toNat
    ofParts ⟨p.negative, a % b, e⟩

/-- The double nearest to `digits * 10 ^ exponent`, infinity above the range. -/
def ofDecimal (digits : Nat) (exponent : Int) : Float :=
  if digits = 0 then 0.0
  else if 310 < exponent then infinity
  else if digits.log2 + 1 + 3 * exponent < -1100 then 0.0
  else Float.ofScientific digits (exponent < 0) exponent.natAbs

end ByteSchema.Binary64
