import ByteSchema.ByteOrder
import ByteSchema.Error

/-!
# A position in the input

A read gives its result and the cursor after it, or an error. Strict reads take all the bytes they
ask for or none, lenient ones what there is.
-/

namespace ByteSchema

structure Cursor where
  data : List UInt8
  offset : Nat
  order : ByteOrder

namespace Cursor

def start (data : List UInt8) (order : ByteOrder) : Cursor := ⟨data, 0, order⟩

def length (c : Cursor) : Nat := c.data.length

def remaining (c : Cursor) : Nat := c.length - c.offset

/-- The bytes not read yet. -/
def rest (c : Cursor) : List UInt8 := c.data.drop c.offset

def atEnd (c : Cursor) : Bool := c.length ≤ c.offset

def peek? (c : Cursor) : Option UInt8 := c.data[c.offset]?

def advance (c : Cursor) (n : Nat) : Cursor := { c with offset := c.offset + n }

/-- The next `n` bytes. -/
def take (c : Cursor) (n : Nat) : Except Error (List UInt8 × Cursor) :=
  if n ≤ c.remaining then .ok (c.rest.take n, c.advance n)
  else .error (.unexpectedEof c.offset n c.remaining)

/-- The next bytes, `n` or as many as there are. -/
def takeLenient (c : Cursor) (n : Nat) : List UInt8 × Cursor :=
  (c.rest.take n, c.advance (min n c.remaining))

def readByte (c : Cursor) : Except Error (UInt8 × Cursor) :=
  match c.peek? with
  | some b => .ok (b, c.advance 1)
  | none => .error (.unexpectedEof c.offset 1 0)

/-- The number with these digits in base 256, the most significant first. -/
def bigEndian (bytes : List UInt8) : Nat :=
  bytes.foldl (fun acc b => acc * 256 + b.toNat) 0

/-- The bytes as a number, in either order. -/
def toNat (order : ByteOrder) (bytes : List UInt8) : Nat :=
  match order with
  | .big => bigEndian bytes
  | .little => bigEndian bytes.reverse

/-- An unsigned integer of `n` bytes, from 1 to 8. -/
def readUInt (c : Cursor) (n : Nat) : Except Error (Nat × Cursor) :=
  if 1 ≤ n ∧ n ≤ 8 then do
    let (bytes, next) ← c.take n
    return (toNat c.order bytes, next)
  else .error (.invalidSchema (.integerWidth n))

/-- An integer of `n` bytes, from 1 to 8, in two's complement. -/
def readInt (c : Cursor) (n : Nat) : Except Error (Int × Cursor) := do
  let (raw, next) ← c.readUInt n
  return ((BitVec.ofNat (8 * n) raw).toInt, next)

def skip (c : Cursor) (n : Nat) : Except Error Cursor :=
  if n ≤ c.remaining then .ok (c.advance n)
  else .error (.unexpectedEof c.offset n c.remaining)

/-- Moves on by `n`, or to the end. -/
def skipLenient (c : Cursor) (n : Nat) : Cursor := c.advance (min n c.remaining)

/-- Moves to `offset`, or to the end if that comes first. -/
def seek (c : Cursor) (offset : Nat) : Cursor := { c with offset := min offset c.length }

end Cursor

end ByteSchema
