import ByteSchema.Decode.Block

/-!
# Decoding

`decode` runs the nodes of a schema over the input and gives the root record, or why there is
none, with the log in either case.
-/

namespace ByteSchema

structure Outcome where
  result : Except Halt Record
  log : Log

namespace Decoder

/-- How deep template calls may nest. With a limit on blocks, which every call deepens, the limit
is enough; so is the number of templates where none calls itself, and recursion without a limit
has more than any input needs. -/
def levels (setting : Setting) : Nat :=
  if 0 < setting.config.maxDepth then setting.config.maxDepth
  else UInt64.size + setting.schema.templates.length

def order (setting : Setting) : ByteOrder :=
  setting.config.byteOrder.getD setting.schema.byteOrder

def initial (setting : Setting) (data : List UInt8) : State where
  cursor := .start data (order setting)
  scopes := .empty
  regions := []
  depth := 0
  log := []

/-- The root record, once every scope and every call is closed. -/
def root : Run Record := do
  let scopes := (← get).scopes
  if scopes.inner.isEmpty && scopes.frames.isEmpty then return scopes.root
  else Run.fail (.internal (s!"{scopes.inner.length} scopes and {scopes.frames.length} " ++
    "parameter frames left open"))

/-- The whole of a decode, with template calls nested at most `levels` deep. -/
def program (setting : Setting) (levels : Nat) : Run Record := do
  Run.log (.started (← Run.cursor).length (← Run.cursor).order setting.schema.spec.length)
  Block.run setting (Block.callWithin setting levels) setting.schema.spec
  let record ← root
  let c ← Run.cursor
  Run.log (.completed record.length c.offset c.length)
  return record

def decodeWithin (levels : Nat) (setting : Setting) (data : List UInt8) : Outcome :=
  match (program setting levels).run (initial setting data) with
  | .ok record s => ⟨.ok record, s.log⟩
  | .error halt s => ⟨.error halt, s.log⟩

end Decoder

def decode (setting : Setting) (data : List UInt8) : Outcome :=
  Decoder.decodeWithin (Decoder.levels setting) setting data

end ByteSchema
