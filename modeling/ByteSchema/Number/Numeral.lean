import ByteSchema.Number.Binary64

/-!
# Reading numbers

Digits of a base, integers with an optional sign, and decimal fractions. A reader takes the whole
text or nothing; digits are ASCII.
-/

namespace ByteSchema.Numeral

/-- The value of an ASCII digit or letter as a digit of a base up to thirty-six. -/
def digit? (base : Nat) (c : Char) : Option Nat :=
  let n := c.toNat
  let value := if 48 ≤ n ∧ n ≤ 57 then n - 48
    else if 97 ≤ n ∧ n ≤ 122 then n - 87
    else if 65 ≤ n ∧ n ≤ 90 then n - 55
    else base
  if value < base then some value else none

/-- The value of `cs` after digits worth `acc`. -/
def digits? (base : Nat) : Nat → List Char → Option Nat
  | acc, [] => some acc
  | acc, c :: cs =>
    match digit? base c with
    | some d => digits? base (acc * base + d) cs
    | none => none

/-- One digit or more. -/
def natural? (base : Nat) : List Char → Option Nat
  | [] => none
  | cs => digits? base 0 cs

/-- One digit or more, after an optional plus sign. -/
def unsigned? (base : Nat) : List Char → Option Nat
  | '+' :: cs => natural? base cs
  | cs => natural? base cs

/-- One decimal digit or more, after an optional sign. -/
def integer? : List Char → Option Int
  | '-' :: cs => (natural? 10 cs).map fun n => -(n : Int)
  | cs => (unsigned? 10 cs).map fun n => (n : Int)

def isDigit (c : Char) : Bool := (digit? 10 c).isSome

/-- Digits with at most one point and an optional exponent; one digit at least stands before or
after the point. -/
def fraction? (cs : List Char) : Option Float :=
  let whole := cs.takeWhile isDigit
  let rest := cs.dropWhile isDigit
  let (places, rest) := match rest with
    | '.' :: r => (r.takeWhile isDigit, r.dropWhile isDigit)
    | r => ([], r)
  match natural? 10 (whole ++ places), rest with
  | none, _ => none
  | some digits, [] => some (Binary64.ofDecimal digits (-places.length))
  | some digits, e :: r =>
    if e = 'e' ∨ e = 'E' then
      (integer? r).map fun exponent => Binary64.ofDecimal digits (exponent - places.length)
    else none

/-- A double without its sign: a decimal fraction, or in any case of letters a name of infinity or
of the NaN. -/
def magnitude? (cs : List Char) : Option Float :=
  let name := cs.map Char.toLower
  if name = ['i', 'n', 'f'] ∨ name = ['i', 'n', 'f', 'i', 'n', 'i', 't', 'y'] then
    some Binary64.infinity
  else if name = ['n', 'a', 'n'] then some Binary64.nan
  else fraction? cs

/-- The double nearest to a decimal with an optional sign. -/
def float? : List Char → Option Float
  | '-' :: cs => (magnitude? cs).map fun x => -x
  | '+' :: cs => magnitude? cs
  | cs => magnitude? cs

end ByteSchema.Numeral
