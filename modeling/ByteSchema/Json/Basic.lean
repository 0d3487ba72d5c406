import ByteSchema.Number.Layout

/-!
# JSON trees

Objects keep their members as written, in order and with repeated names. Numbers are integers of
64 bits, or doubles.
-/

namespace ByteSchema

inductive Json.Number where
  | natural (n : UInt64)
  /-- Below zero. -/
  | negative (n : Int64)
  | float (x : Float)

inductive Json where
  | null
  | bool (b : Bool)
  | number (n : Json.Number)
  | text (s : String)
  | list (items : List Json)
  | object (members : List (String × Json))

namespace Json

instance : Inhabited Json := ⟨.null⟩

def ofNat (n : Nat) : Json := .number (.natural (UInt64.ofNat n))

def ofInt64 (n : Int64) : Json :=
  if 0 ≤ n then .number (.natural n.toUInt64) else .number (.negative n)

/-- The last member of a name counts. -/
def member? (name : String) : List (String × Json) → Option Json
  | [] => none
  | (key, value) :: rest =>
    match member? name rest with
    | some later => some later
    | none => if key = name then some value else none

/-- Plain notation for exponents from -5 to 15, always with a point; of two nearest decimals the
even one. -/
def numberLayout : Layout where
  tie := .even
  positional e := -5 ≤ e && e < 16
  pointZero := true
  infinity := "null"
  nan := "null"

end Json

end ByteSchema
