import ByteSchema.Decode.Bits
import ByteSchema.Decode.Scan
import ByteSchema.Decode.State
import ByteSchema.Decode.Vint

/-!
# Running actions

Each action reads at the cursor, writes to the target record, or both.
-/

namespace ByteSchema

namespace Action

/-- A field of `id` from the bytes that `f` reads once the length is known. -/
def readField (setting : Setting) (id : String) (length : Term)
    (f : Nat → Cursor → Except Error (Value × Cursor)) : Run Unit := do
  let n ← Run.evalLength setting length
  let v ← Run.read (f n)
  Run.write id v

def uintField (n : Nat) (c : Cursor) : Except Error (Value × Cursor) := do
  let (v, next) ← c.readUInt n
  return (.ofNat v, next)

def intField (n : Nat) (c : Cursor) : Except Error (Value × Cursor) := do
  let (v, next) ← c.readInt n
  return (.int (Int64.ofInt v), next)

def asciiField (n : Nat) (c : Cursor) : Except Error (Value × Cursor) := do
  let (data, next) ← c.take n
  return (.text (Value.latin1 data), next)

def bytesField (n : Nat) (c : Cursor) : Except Error (Value × Cursor) := do
  let (data, next) ← c.take n
  return (.bytes data, next)

/-- Bytes as far as they go. -/
def runLenient (setting : Setting) (id : String) (length : Term) : Run Unit := do
  let n ← Run.evalLength setting length
  let c ← Run.cursor
  let (data, next) := c.takeLenient n
  Run.setCursor next
  if data.length < n then
    Run.report (.truncated "bytes_lenient" n data.length c.offset)
  Run.write id (.bytes data)

/-- The fields of a byte, in a record of their own if it has a name, and in the target. -/
def runBits (id : Option String) (entries : List BitField) : Run Unit := do
  let byte ← Run.read Cursor.readByte
  let fields ← Run.ofExcept (BitField.unpack byte 8 entries)
  match id with
  | some id => Run.write id (.record (Record.ofList fields))
  | none => pure ()
  Run.mapScopes fun s => s.mapTarget fun r => r.merge fields

def runVint (id : String) (keepMarker : Bool) : Run Unit := do
  let (value, length) ← Run.read fun c => do
    let (value, length, next) ← Vint.read c keepMarker
    return ((value, length), next)
  Run.write id (.record [("value", .ofNat value), ("length", .int (Int64.ofNat length))])

/-- The first position from `offset` on that is a whole number of multiples past `base`. -/
def alignedTo (offset multiple base : Nat) : Nat :=
  if offset ≤ base then base else base + (offset - base + (multiple - 1)) / multiple * multiple

/-- The position as a word. The product in it is no larger, so the sum is what may overflow. -/
def alignedWord? (offset multiple base : Nat) : Option Nat :=
  let position := alignedTo offset multiple base
  if position < UInt64.size then some position else none

/-- The offset that a basis stands for. -/
def basisOffset (setting : Setting) : Basis → Run Nat
  | .scope => do
    match (← get).regions with
    | region :: _ => pure region.start
    | [] => pure 0
  | .global => pure 0
  | .term t => Run.evalLength setting t

/-- Moves to the position that `find?` gives, as far as the input goes. -/
def alignBy (find? : Nat → Nat → Nat → Option Nat) (setting : Setting) (multiple : Term)
    (basis : Basis) : Run Unit := do
  let multiple ← Run.evalLength setting multiple
  if multiple = 0 then Run.fail (.invalidSchema .alignToZero)
  else do
    let base ← basisOffset setting basis
    let offset ← Run.offset
    let position ← Run.checked (find? offset multiple base)
    Run.setCursor ((← Run.cursor).skipLenient (position - offset))

def runAlign : Setting → Term → Basis → Run Unit := alignBy alignedWord?

/-- The run of bytes that `scan` measures in the rest of the input. -/
def readRun (id : String) (scan : List UInt8 → Nat)
    (f : Nat → Cursor → Except Error (Value × Cursor)) : Run Unit := do
  let v ← Run.read fun c => f (scan c.rest) c
  Run.write id v

def run (setting : Setting) : Action → Run Unit
  | .uint id length => readField setting id length uintField
  | .int id length => readField setting id length intField
  | .ascii id length => readField setting id length asciiField
  | .bytes id length => readField setting id length bytesField
  | .bytesLenient id length => runLenient setting id length
  | .skip length => do
    let n ← Run.evalLength setting length
    let next ← Run.ofExcept ((← Run.cursor).skip n)
    Run.setCursor next
  | .skipIfOdd ref => do
    let x ← Run.ofExcept (← Run.eval setting ref).toFloat
    if Binary64.isOdd x then Run.setCursor ((← Run.cursor).skipLenient 1)
  | .bitfield id fields => runBits id fields
  | .vintId id => runVint id true
  | .vintSize id => runVint id false
  | .align multiple basis => runAlign setting multiple basis
  | .assert condition message => do
    if ← Run.evalTruth setting condition then pure ()
    else Run.fail (.assertionFailed message (← Run.offset))
  | .bind id value => do Run.write id (← Run.eval setting value)
  | .set id value => do
    let v ← Run.eval setting value
    Run.mapScopes fun s => s.assign id v
  | .skipBlank => do
    let c ← Run.cursor
    Run.setCursor (c.skipLenient (Scan.blanks c.rest))
  | .peekBytes id length => do
    let n ← Run.evalLength setting length
    Run.write id (.bytes ((← Run.cursor).takeLenient n).1)
  | .asciiUntil id terminators limit => do
    let max ← Run.evalLimit setting limit
    readRun id (fun data => Scan.untilAny data terminators max) asciiField
  | .bytesUntil id sequence limit => do
    let max ← Run.evalLimit setting limit
    readRun id (fun data => Scan.untilSequence data sequence max) bytesField
  | .bytesUntilMarker id marker values ranges =>
    readRun id (Scan.untilMarker marker (Scan.passes values ranges)) bytesField

end Action

end ByteSchema
