import ByteSchema.Number.Shortest

/-!
# Writing doubles

A `Layout` holds what one output format decides about numbers; `Layout.write` does the rest, from
the shortest digits.
-/

namespace ByteSchema

structure Layout where
  /-- The choice between two decimals that are equally near. -/
  tie : Tie
  /-- Whether a number whose first digit stands for `10 ^ e` is written without an exponent. -/
  positional : Int → Bool
  /-- Whether a whole number ends in `.0`. -/
  pointZero : Bool
  infinity : String
  nan : String

namespace Layout

def decimalText (n : Nat) : List Char := Nat.toDigits 10 n

/-- Digits with the point `exponent` places to the right of the last one, padded with zeros. -/
def positionalText (pointZero : Bool) (d : Decimal) : List Char :=
  let digits := decimalText d.digits
  let whole := (digits.length + d.exponent).toNat
  if 0 ≤ d.exponent then
    digits ++ List.replicate d.exponent.toNat '0' ++ (if pointZero then ['.', '0'] else [])
  else if 0 < whole then digits.take whole ++ '.' :: digits.drop whole
  else '0' :: '.' :: List.replicate (-(digits.length + d.exponent)).toNat '0' ++ digits

/-- One digit before the point, and the exponent with its sign. -/
def scientificText (d : Decimal) : List Char :=
  let digits := decimalText d.digits
  let exponent := d.exponent + digits.length - 1
  let fraction := match digits.drop 1 with
    | [] => []
    | rest => '.' :: rest
  digits.take 1 ++ fraction ++ 'e' :: (if exponent < 0 then '-' else '+') ::
    decimalText exponent.natAbs

/-- A finite double that is not negative. -/
def size (l : Layout) (p : Binary64.Parts) : List Char :=
  if p.mantissa = 0 then (if l.pointZero then ['0', '.', '0'] else ['0'])
  else
    let d := Decimal.shortest l.tie p
    if l.positional (d.exponent + (decimalText d.digits).length - 1) then
      positionalText l.pointZero d
    else scientificText d

def write (l : Layout) (x : Float) : String :=
  if x.isNaN then l.nan
  else
    let sign := if Binary64.isNegative x then "-" else ""
    if x.isInf then sign ++ l.infinity else sign ++ String.ofList (l.size (Binary64.parts x))

end Layout

end ByteSchema
