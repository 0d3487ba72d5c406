import ByteSchema.Number.Layout
import ByteSchema.Value.Basic

/-!
# Values as text

`Value.display` is what joins texts, selects a case of a switch and names an absent match. It
shows the items of a list and the bytes of a byte string in decimal, with commas between, and of
a record only that it is one.
-/

namespace ByteSchema.Value

/-- Never an exponent and no point for a whole number; of two nearest decimals the upper one. -/
def numberLayout : Layout where
  tie := .up
  positional _ := true
  pointZero := false
  infinity := "Infinity"
  nan := "NaN"

def displayInt (n : Int64) : String := toString n.toInt

def displayByte (b : UInt8) : String := toString b.toNat

mutual

def display : Value → String
  | .undefined => "undefined"
  | .bool b => if b then "true" else "false"
  | .int n => displayInt n
  | .float x => numberLayout.write x
  | .text s => s
  | .bytes data => ",".intercalate (data.map displayByte)
  | .list items => ",".intercalate (displayItems items)
  | .record _ => "[object Object]"

def displayItems : List Value → List String
  | [] => []
  | v :: vs => v.display :: displayItems vs

end

end ByteSchema.Value
