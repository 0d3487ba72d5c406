import ByteSchema.Json.Source
import ByteSchema.Number.Numeral
import ByteSchema.Number.Word

/-!
# Numbers in JSON texts

An integer is exact while it fits 64 bits. For a double, the digits that fit 64 bits are scaled by
one multiplication or division with a power of ten; further digits only count as zeros.
-/

namespace ByteSchema.Json

/-- What was read, with the text after it if that text can be read on. -/
inductive Reading where
  | value (s : Source) (rest : List Char)
  | stop (s : Source)

namespace Reading

def broken (f : Fault) : Reading := .stop (.broken f)

/-- The text stops inside a number or a word. -/
def misspelt (f : Fault) : Reading := .stop (.misspelt f (some f))

end Reading

namespace Numeral

/-- Takes up digits while the number stays below `2 ^ 64`; also counts those left over. -/
def accumulate : Nat → List Char → Nat × Nat
  | acc, [] => (acc, 0)
  | acc, c :: cs =>
    let next := acc * 10 + (c.toNat - 48)
    if next < UInt64.size then accumulate next cs else (acc, (c :: cs).length)

/-- `x * 10 ^ exponent`. Below the range the division is done in steps; above it there is no
result. -/
def scale : Nat → Float → Int → Option Float
  | 0, x, _ => some x
  | steps + 1, x, exponent =>
    if exponent.natAbs ≤ 308 then
      let power := Binary64.ofDecimal 1 exponent.natAbs
      if 0 ≤ exponent then
        if (x * power).isInf then none else some (x * power)
      else some (x / power)
    else if x == 0.0 then some x
    else if 0 ≤ exponent then none
    else scale steps (x / 1e308) (exponent + 308)

/-- A double as a tree; without one, the number is out of range. -/
def leaf (negative : Bool) : Option Float → Source
  | some x => .number (.float (if negative then -x else x))
  | none => .misspelt .malformed none

def double (negative : Bool) (digits : Nat) (exponent : Int) : Source :=
  leaf negative (scale 5 digits.toUInt64.toFloat exponent)

/-- An integer below `2 ^ 64`, or its negative. There is no negative zero among the integers. -/
def integer (negative : Bool) (n : Nat) : Source :=
  match negative, n, Word.ofInt? (-(n : Int)) with
  | false, _, _ => .number (.natural n.toUInt64)
  | true, _ + 1, some w => .number (.negative w)
  | true, _, _ => .number (.float (-n.toUInt64.toFloat))

/-- Digits are missing at `rest`. -/
def noDigits : List Char → Reading
  | [] => .stop (.misspelt .truncated (some .malformed))
  | _ => .misspelt .malformed

/-- The number `digits * 10 ^ exponent` once the digits of a further exponent are known. -/
def withExponent (negative below : Bool) (digits : Nat) (exponent : Int) (power : Nat) : Source :=
  if power < 0x80000000 then
    double negative digits (if below then exponent - power else exponent + power)
  else leaf negative (if below || digits = 0 then some 0.0 else none)

/-- What follows the letter of an exponent. -/
def readExponent (negative : Bool) (digits : Nat) (exponent : Int) (cs : List Char) : Reading :=
  let (below, cs) := match cs with
    | '-' :: rest => (true, rest)
    | '+' :: rest => (false, rest)
    | rest => (false, rest)
  match Numeral.natural? 10 (cs.takeWhile Numeral.isDigit), cs.dropWhile Numeral.isDigit with
  | some power, rest => .value (withExponent negative below digits exponent power) rest
  | none, rest => noDigits rest

/-- What follows the point of a number. -/
def readPlaces (negative : Bool) (digits : Nat) (exponent : Int) (cs : List Char) : Reading :=
  let places := cs.takeWhile Numeral.isDigit
  let rest := cs.dropWhile Numeral.isDigit
  if places.isEmpty then noDigits rest
  else
    let (digits, left) := accumulate digits places
    let exponent := exponent - (places.length - left : Nat)
    match rest with
    | 'e' :: r => readExponent negative digits exponent r
    | 'E' :: r => readExponent negative digits exponent r
    | r => .value (double negative digits exponent) r

/-- A number after its sign. A leading zero stands alone. -/
def readNumber (negative : Bool) (cs : List Char) : Reading :=
  let whole := cs.takeWhile Numeral.isDigit
  let rest := cs.dropWhile Numeral.isDigit
  match whole with
  | [] => noDigits rest
  | '0' :: _ :: _ => .misspelt .malformed
  | _ =>
    let (digits, left) := accumulate 0 whole
    match rest with
    | '.' :: r => readPlaces negative digits left r
    | 'e' :: r => readExponent negative digits left r
    | 'E' :: r => readExponent negative digits left r
    | r => .value (if left = 0 then integer negative digits else double negative digits left) r

end Numeral

end ByteSchema.Json
