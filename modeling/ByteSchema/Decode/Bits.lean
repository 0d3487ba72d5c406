import ByteSchema.Schema.Basic

/-!
# The bits of a byte as fields

Fields take their bits from the most significant end. Padding takes bits and gives no value.
-/

namespace ByteSchema.BitField

def value (kind : BitKind) (raw : Nat) : Value :=
  match kind with
  | .uint => .int (Int64.ofNat raw)
  | .boolean => .bool (raw ≠ 0)

/-- The named fields of a byte whose `left` low bits are not taken yet. -/
def unpack (byte : UInt8) (left : Nat) : List BitField → Except Error (List (String × Value))
  | [] => .ok []
  | field :: rest =>
    let bits := field.bits.toNat
    if bits = 0 ∨ left < bits then .error (.invalidSchema (.bitWidth bits left))
    else do
      let raw := byte.toNat >>> (left - bits) % 1 <<< bits
      let later ← unpack byte (left - bits) rest
      match field.id with
      | some id => return (id, value field.kind raw) :: later
      | none => return later

end ByteSchema.BitField
