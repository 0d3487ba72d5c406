import ByteSchema.Json.Basic

/-!
# JSON as it is written

A `Source` is the tree of a text that may be broken: a fault stands where the text leaves JSON.
`strict` takes a tree for a value, and fails with the fault that comes first in the text;
`skip` passes over a tree whose value is not wanted, and minds only what leaves it without an end.
-/

namespace ByteSchema.Json

inductive Fault where
  /-- The text ends too early. -/
  | truncated
  | malformed
  deriving DecidableEq

/-- A list or an object has a fault `ending` if after its last part neither a comma nor the closing
bracket follows. -/
inductive Source where
  | null
  | bool (b : Bool)
  | number (n : Number)
  | text (s : String)
  | list (items : List Source) (ending : Option Fault)
  /-- A key is a text, or the fault that stands in its place. -/
  | object (members : List (Source × Source)) (ending : Option Fault)
  /-- A text that breaks, or nothing that a value could begin with; no value, by the fault
  `asValue`. Without a fault `asSpace` it has an end all the same, such as a text with half of a
  surrogate pair. -/
  | fault (asValue : Fault) (asSpace : Option Fault)
  /-- A number or a word that breaks, with the same faults. -/
  | misspelt (asValue : Fault) (asSpace : Option Fault)

namespace Source

/-- The text stops here. -/
def broken (f : Fault) : Source := .fault f (some f)

/-- The text that stands where only a text may stand. -/
def name : Source → Except Fault String
  | .text s => .ok s
  | .fault f _ => .error f
  | _ => .error .malformed

/-- The fault that a reader meets who passes over a key. -/
def skipName : Source → Option Fault
  | .text _ => none
  | .fault _ f => f
  | _ => some .malformed

/-- Nothing more may follow here but the end. -/
def close : Option Fault → Except Fault Unit
  | none => .ok ()
  | some f => .error f

mutual

/-- The value, in which lists and objects stand at most `levels` deep. -/
def strict : Nat → Source → Except Fault Json
  | _, .null => .ok .null
  | _, .bool b => .ok (.bool b)
  | _, .number n => .ok (.number n)
  | _, .text s => .ok (.text s)
  | 0, .list .. => .error .malformed
  | 0, .object .. => .error .malformed
  | levels + 1, .list items ending => do
    let values ← strictItems levels items
    close ending
    return .list values
  | levels + 1, .object members ending => do
    let values ← strictMembers levels members
    close ending
    return .object values
  | _, .fault f _ => .error f
  | _, .misspelt f _ => .error f

def strictItems : Nat → List Source → Except Fault (List Json)
  | _, [] => .ok []
  | levels, item :: items => do
    let j ← strict levels item
    return j :: (← strictItems levels items)

def strictMembers : Nat → List (Source × Source) → Except Fault (List (String × Json))
  | _, [] => .ok []
  | levels, (key, value) :: members => do
    let name ← key.name
    let j ← strict levels value
    return (name, j) :: (← strictMembers levels members)

end

mutual

/-- The fault that a reader meets who passes over the tree. -/
def skip : Source → Option Fault
  | .list items ending => (skipItems items).or ending
  | .object members ending => (skipMembers members).or ending
  | .fault _ f => f
  | .misspelt _ f => f
  | _ => none

def skipItems : List Source → Option Fault
  | [] => none
  | item :: items => (skip item).or (skipItems items)

def skipMembers : List (Source × Source) → Option Fault
  | [] => none
  | (key, value) :: members => (key.skipName.or (skip value)).or (skipMembers members)

end

end Source

end ByteSchema.Json
