import ByteSchema.Number.Word
import ByteSchema.Table

/-!
# Values and records

A decode produces a record: field names with values, in the order of their first insertion. A
write to a name that is there replaces the value in place.
-/

namespace ByteSchema

inductive Value where
  | undefined
  | bool (b : Bool)
  | int (n : Int64)
  | float (x : Float)
  | text (s : String)
  | bytes (data : List UInt8)
  | list (items : List Value)
  | record (fields : List (String × Value))

instance : Inhabited Value := ⟨.undefined⟩

/-- Fields in order. The operations below keep every name single. -/
abbrev Record := List (String × Value)

namespace Record

def empty : Record := []

def get? (r : Record) (id : String) : Option Value := r.lookup id

def contains (r : Record) (id : String) : Bool := (r.get? id).isSome

def keys (r : Record) : List String := r.map Prod.fst

/-- The value goes to the place of `id`, or to the end when there is none. -/
def insert (r : Record) (id : String) (value : Value) : Record := Table.insert r id value

/-- The value of a field is changed in place. -/
def modify (r : Record) (id : String) (f : Value → Value) : Record := Table.modify r id f

/-- `insert` of every field of `other` in turn. -/
def merge (r other : Record) : Record :=
  other.foldl (fun r field => r.insert field.1 field.2) r

def ofList (fields : List (String × Value)) : Record := merge empty fields

/-- Appends to the list held by `id`; anything else there gives way to a list of one item. -/
def pushItem (r : Record) (id : String) (item : Value) : Record :=
  match r.get? id with
  | some (.list items) => r.insert id (.list (items ++ [item]))
  | _ => r.insert id (.list [item])

end Record

namespace Value

/-- A natural number below `2 ^ 64`: an integer where that fits, else the nearest double. -/
def ofNat (n : Nat) : Value :=
  match Word.ofInt? n with
  | some w => .int w
  | none => .float n.toUInt64.toFloat

/-- The text whose characters have the bytes as code points. -/
def latin1 (data : List UInt8) : String :=
  String.ofList (data.map fun b => Char.ofNat b.toNat)

def typeName : Value → String
  | .undefined => "undefined"
  | .bool _ => "boolean"
  | .int _ | .float _ => "number"
  | .text _ => "text"
  | .bytes _ => "bytes"
  | .list _ => "list"
  | .record _ => "record"

def isTruthy : Value → Bool
  | .undefined => false
  | .bool b => b
  | .int n => n ≠ 0
  | .float x => !(x == 0.0) && !x.isNaN
  | .text s => s ≠ ""
  | .bytes _ | .list _ | .record _ => true

/-- The number of items, bytes or characters. -/
def length? : Value → Option Nat
  | .list items => some items.length
  | .bytes data => some data.length
  | .text s => some s.length
  | _ => none

/-! ### Equality of structure -/

mutual

/-- Same kind and same content. Doubles compare as numbers, so a NaN differs from itself; the
order of the fields of a record does not count. -/
def same : Value → Value → Bool
  | .undefined, .undefined => true
  | .bool a, .bool b => a == b
  | .int a, .int b => a == b
  | .float a, .float b => a == b
  | .text a, .text b => a == b
  | .bytes a, .bytes b => a == b
  | .list as, .list bs => sameItems as bs
  | .record as, .record bs => as.length == bs.length && sameFields as bs
  | _, _ => false

def sameItems : List Value → List Value → Bool
  | [], [] => true
  | a :: as, b :: bs => same a b && sameItems as bs
  | _, _ => false

/-- Every field on the left has an equal one on the right. -/
def sameFields : List (String × Value) → List (String × Value) → Bool
  | [], _ => true
  | (id, a) :: rest, bs =>
    (match bs.lookup id with
      | some b => same a b
      | none => false) && sameFields rest bs

end

end Value

end ByteSchema
