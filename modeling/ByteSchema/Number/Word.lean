/-!
# Integers of 64 bits
-/

namespace ByteSchema.Word

/-- The integer, when it has 64 bits. -/
def ofInt? (n : Int) : Option Int64 :=
  if Int64.minValue.toInt ≤ n ∧ n ≤ Int64.maxValue.toInt then some (Int64.ofInt n) else none

def mul? (a b : Int64) : Option Int64 := ofInt? (a.toInt * b.toInt)

/-- `acc` times a power, for an exponent that is positive and has at most `bits` bits. The base is
squared from one bit to the next, and a product that is out of range ends it. -/
def powFrom? : Nat → Int64 → Int64 → Nat → Option Int64
  | 0, _, _, _ => none
  | bits + 1, acc, base, exponent =>
    (if exponent % 2 = 1 then mul? acc base else some acc).bind fun acc =>
      -- The square behind the last bit is not needed, and may be out of range.
      if exponent = 1 then some acc
      else (mul? base base).bind fun square => powFrom? bits acc square (exponent / 2)

/-- The power, when it has 64 bits, for an exponent of 32 bits. -/
def pow? (base : Int64) (exponent : Nat) : Option Int64 :=
  if exponent = 0 then some 1 else powFrom? 32 1 base exponent

end ByteSchema.Word
