import ByteSchema.Number.Binary64

/-!
# The shortest decimal of a double

`shortest` finds, among the decimals that read back as a given positive double, one with the
fewest digits, and of those the nearest. It searches the grids of multiples of `10 ^ p` from
coarse to fine; the first grid with a multiple in the rounding interval decides, and there only
the two neighbours of the value can be nearest.
-/

namespace ByteSchema

/-- The number `digits * 10 ^ exponent`. -/
structure Decimal where
  digits : Nat
  exponent : Int

/-- Where a value half-way between two decimals goes. -/
inductive Tie where
  | up
  | even

namespace Decimal

/-- `a * 10 ^ p` against `b * 2 ^ q`. -/
def compareBinary (a : Nat) (p : Int) (b : Nat) (q : Int) : Ordering :=
  compare ((a * Nat.pow 10 p.toNat) <<< (-q).toNat) ((b * Nat.pow 10 (-p).toNat) <<< q.toNat)

/-- The numbers that round to a double, in quarters of its last place; the ends belong to it when
`closed`. -/
structure Interval where
  low : Nat
  high : Nat
  exponent : Int
  closed : Bool

/-- The interval of a positive double. Below a power of two the neighbour is half as far. -/
def Interval.ofParts (p : Binary64.Parts) : Interval :=
  let narrow := p.mantissa = Binary64.hiddenBit ∧ -1074 < p.exponent
  { low := 4 * p.mantissa - (if narrow then 1 else 2)
    high := 4 * p.mantissa + 2
    exponent := p.exponent - 2
    closed := p.mantissa % 2 = 0 }

def Interval.contains (i : Interval) (d : Decimal) : Bool :=
  let low := compareBinary d.digits d.exponent i.low i.exponent
  let high := compareBinary d.digits d.exponent i.high i.exponent
  (low == .gt || (i.closed && low == .eq)) && (high == .lt || (i.closed && high == .eq))

/-- The largest multiple of `10 ^ p` that is at most `m * 2 ^ q`. -/
def floor (m : Nat) (q p : Int) : Nat :=
  (m * Nat.pow 10 (-p).toNat) <<< q.toNat / Nat.pow 10 p.toNat <<< (-q).toNat

/-- Of `below` and its successor, both in the interval, the one nearer to the value. -/
def nearer (tie : Tie) (v : Binary64.Parts) (below : Nat) (p : Int) : Nat :=
  match compareBinary (2 * below + 1) p (2 * v.mantissa) v.exponent with
  | .lt => below + 1
  | .gt => below
  | .eq =>
    match tie with
    | .up => below + 1
    | .even => if below % 2 = 0 then below else below + 1

/-- The search on the grids `p`, `p - 1`, …, of which it tries `fuel`. -/
def search (tie : Tie) (v : Binary64.Parts) (i : Interval) : Nat → Int → Decimal
  | 0, p => ⟨floor v.mantissa v.exponent p, p⟩
  | fuel + 1, p =>
    let below := floor v.mantissa v.exponent p
    match i.contains ⟨below, p⟩, i.contains ⟨below + 1, p⟩ with
    | true, true => ⟨nearer tie v below p, p⟩
    | true, false => ⟨below, p⟩
    | false, true => ⟨below + 1, p⟩
    | false, false => search tie v i fuel (p - 1)

/-- The first grid lies above the value, and seventeen digits always suffice. -/
def shortest (tie : Tie) (v : Binary64.Parts) : Decimal :=
  let binary : Int := v.mantissa.log2 + 1 + v.exponent
  search tie v (.ofParts v) 20 (binary * 30103 / 100000 + 1)

end Decimal

end ByteSchema
