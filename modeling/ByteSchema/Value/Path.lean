import ByteSchema.Number.Numeral
import ByteSchema.Text.Split
import ByteSchema.Value.Basic

/-!
# Paths into a value

A path is names separated by dots, read from the outside in. A name selects a field of a record;
a number selects an item, a byte or a character; `length` counts them where no field is so named.
-/

namespace ByteSchema

namespace Path

def segments (path : String) : List String :=
  (Text.splitOn '.' path.toList).map String.ofList

/-- The position that a name stands for. -/
def index? (name : String) : Option Nat := Numeral.unsigned? 10 name.toList

end Path

namespace Value

/-- The length as a value, for the name `length` alone. -/
def lengthField (v : Value) (name : String) : Option Value :=
  if name = "length" then v.length?.map fun n => .int (Int64.ofNat n) else none

/-- What `name` selects in a value. -/
def child (v : Value) (name : String) : Option Value :=
  match v with
  | .record fields => fields.lookup name
  | .list items =>
    match Path.index? name with
    | some i => items[i]?
    | none => v.lengthField name
  | .bytes data =>
    match Path.index? name with
    | some i => data[i]?.map fun b => .int (Int64.ofNat b.toNat)
    | none => v.lengthField name
  | .text s =>
    match Path.index? name with
    | some i => s.toList[i]?.map fun c => .text (String.singleton c)
    | none => v.lengthField name
  | _ => none

/-- `child` for one name after the other. -/
def follow (v : Value) : List String → Option Value
  | [] => some v
  | name :: rest =>
    match v.child name with
    | some w => w.follow rest
    | none => none

def getPath (v : Value) (path : String) : Option Value := v.follow (Path.segments path)

end Value

/-- The field that the path begins with, and the rest of the path in its value. -/
def Record.getPath (r : Record) (path : String) : Option Value :=
  let (head, rest) := Text.splitOnce '.' path.toList
  match r.get? (String.ofList head), rest with
  | none, _ => none
  | some v, none => some v
  | some v, some rest => v.getPath (String.ofList rest)

end ByteSchema
