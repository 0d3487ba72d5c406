/-!
# Where a run of bytes ends

Each scanner gives the length of the run before what ends it. Nothing here fails: a run that
nothing ends goes up to its limit.
-/

namespace ByteSchema.Scan

/-- The white space of page descriptions: NUL, HT, LF, FF, CR and SP. -/
def isBlank (b : UInt8) : Bool :=
  b = 0x00 || b = 0x09 || b = 0x0a || b = 0x0c || b = 0x0d || b = 0x20

def blanks (data : List UInt8) : Nat := (data.takeWhile isBlank).length

/-- The longest run allowed in `data`. -/
def limit (data : List UInt8) (max : Option Nat) : Nat :=
  match max with
  | some n => min n data.length
  | none => data.length

/-- Up to the first of the terminators. -/
def untilAny (data terminators : List UInt8) (max : Option Nat) : Nat :=
  ((data.take (limit data max)).takeWhile fun b => !terminators.contains b).length

/-- The least position, at most `bound`, where `sequence` stands in `data`; else `bound`. -/
def find (sequence : List UInt8) : List UInt8 → Nat → Nat
  | _, 0 => 0
  | data, bound + 1 =>
    if sequence.isPrefixOf data then 0
    else
      match data with
      | [] => bound + 1
      | _ :: rest => find sequence rest bound + 1

/-- Up to the first occurrence of `sequence`, which may go past the limit. -/
def untilSequence (data sequence : List UInt8) (max : Option Nat) : Nat :=
  if sequence.isEmpty then 0 else find sequence data (limit data max)

/-- A byte that makes an escape of the marker before it. -/
def passes (values : List UInt8) (ranges : List (UInt8 × UInt8)) (b : UInt8) : Bool :=
  values.contains b || ranges.any fun (low, high) => low ≤ b && b ≤ high

/-- Up to the first marker that is not part of an escape. -/
def untilMarker (marker : UInt8) (escapes : UInt8 → Bool) : List UInt8 → Nat
  | [] => 0
  | [b] => if b = marker then 0 else 1
  | b :: next :: rest =>
    if b = marker then
      if escapes next then untilMarker marker escapes rest + 2 else 0
    else untilMarker marker escapes (next :: rest) + 1

end ByteSchema.Scan
