import ByteSchema.Decode.Cursor

/-!
# Integers that carry their own length

The leading zero bits of the first byte, and one more, count the bytes; the first one bit is the
length marker. An element id keeps the marker, a data size does not.
-/

namespace ByteSchema.Vint

/-- The encoded length that a first byte announces. Zero announces none. -/
def lengthOf (first : UInt8) : Nat := 8 - first.toNat.log2

/-- The value bits of the first byte of `length` bytes. -/
def head (keepMarker : Bool) (first : UInt8) (length : Nat) : Nat :=
  if keepMarker then first.toNat else first.toNat % 1 <<< (8 - length)

/-- The value, the encoded length and the cursor after it. -/
def read (c : Cursor) (keepMarker : Bool) : Except Error (Nat × Nat × Cursor) :=
  match c.peek? with
  | none => .error (.unexpectedEof c.offset 1 0)
  | some first =>
    if first = 0 then .error (.invalidVint c.offset first)
    else do
      let length := lengthOf first
      let (bytes, next) ← c.take length
      let value := (bytes.drop 1).foldl (fun acc b => acc * 256 + b.toNat)
        (head keepMarker first length)
      return (value, length, next)

end ByteSchema.Vint
