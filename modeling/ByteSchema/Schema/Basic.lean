import ByteSchema.ByteOrder
import ByteSchema.Error
import ByteSchema.Expr.Term

/-!
# Schemas

A schema describes a format by nodes that are run in order over the input. An `Action` is a node
without blocks of its own; the other nodes run a block of nodes once, repeatedly or by choice.
-/

namespace ByteSchema

/-- How the bits of a field are taken. -/
inductive BitKind where
  | uint
  | boolean
  deriving DecidableEq

/-- Some bits of a byte; without a name they are padding. -/
structure BitField where
  id : Option String
  kind : BitKind
  bits : UInt8

/-- Where the distances that `align` rounds up are measured from. -/
inductive Basis where
  /-- The start of the innermost region, or of the input outside of all regions. -/
  | scope
  | global
  | term (t : Term)

/-- The arguments for a template, in the order of its parameters or by their names. -/
inductive Arguments where
  | positional (terms : List Term)
  | named (terms : List (String × Term))

inductive Action where
  | uint (id : String) (length : Term)
  | int (id : String) (length : Term)
  | ascii (id : String) (length : Term)
  | bytes (id : String) (length : Term)
  | bytesLenient (id : String) (length : Term)
  | skip (length : Term)
  | skipIfOdd (ref : Term)
  | bitfield (id : Option String) (fields : List BitField)
  | vintId (id : String)
  | vintSize (id : String)
  | align (multiple : Term) (basis : Basis)
  | assert (condition : Term) (message : String)
  | bind (id : String) (value : Term)
  | set (id : String) (value : Term)
  | skipBlank
  | peekBytes (id : String) (length : Term)
  | asciiUntil (id : String) (terminators : List UInt8) (limit : Option Term)
  | bytesUntil (id : String) (sequence : List UInt8) (limit : Option Term)
  | bytesUntilMarker (id : String) (marker : UInt8) (values : List UInt8)
      (ranges : List (UInt8 × UInt8))

inductive Node where
  | action (a : Action)
  | list (id : String) (items : List Node) (count stopWhen readUntil emitWhen : Option Term)
  | template (name : String) (arguments : Arguments)
  | branch (condition : Term) (spec otherwise : List Node)
  | switch (on : Term) (cases : List (String × List Node)) (default : Option (List Node))
  | bounded (id : String) (length : Term) (spec : List Node)
  | withByteOrder (order : ByteOrder) (spec : List Node)

/-- A block with parameters. -/
structure Template where
  parameters : List String
  spec : List Node

/-- Templates have one name each. -/
structure Schema where
  byteOrder : ByteOrder
  templates : List (String × Template)
  spec : List Node

namespace Schema

def template? (schema : Schema) (name : String) : Except Error Template :=
  match schema.templates.lookup name with
  | some t => .ok t
  | none => .error (.unknownTemplate name)

end Schema

end ByteSchema
