import ByteSchema.Json.Printer
import ByteSchema.Value.Basic

/-!
# Values as JSON

Undefined and what JSON has no number for become `null`, bytes a list of their values.
-/

namespace ByteSchema.Value

mutual

def toJson : Value → Json
  | .undefined => .null
  | .bool b => .bool b
  | .int n => .ofInt64 n
  | .float x => if x.isFinite then .number (.float x) else .null
  | .text s => .text s
  | .bytes data => .list (data.map fun b => .ofNat b.toNat)
  | .list items => .list (itemsToJson items)
  | .record fields => .object (fieldsToJson fields)

def itemsToJson : List Value → List Json
  | [] => []
  | v :: vs => v.toJson :: itemsToJson vs

def fieldsToJson : List (String × Value) → List (String × Json)
  | [] => []
  | (id, v) :: rest => (id, v.toJson) :: fieldsToJson rest

end

end ByteSchema.Value
