import ByteSchema.Schema.Basic

/-!
# Kinds of nodes and their fields

In a schema text a node is an object whose `type` is the tag of its kind. `NodeKind.fields` lists
what else it may hold, in the order in which missing fields are looked for, `Field.Content` is what
the value of a field is read as, and `Field.absent?` what stands for a field that may be missing.
-/

namespace ByteSchema

inductive NodeKind where
  | uint | int | ascii | bytes | bytesLenient | skip | skipIfOdd | bitfield | vintId | vintSize
  | list | template | branch | switch | bounded | align | withByteOrder | assert | bind | set
  | skipBlank | peekBytes | asciiUntil | bytesUntil | bytesUntilMarker
  deriving DecidableEq

namespace NodeKind

/-- Every kind, in the order of their numbers. -/
def all : List NodeKind :=
  [uint, int, ascii, bytes, bytesLenient, skip, skipIfOdd, bitfield, vintId, vintSize, list,
    template, branch, switch, bounded, align, withByteOrder, assert, bind, set, skipBlank,
    peekBytes, asciiUntil, bytesUntil, bytesUntilMarker]

def tag : NodeKind → String
  | uint => "uint"
  | int => "int"
  | ascii => "ascii"
  | bytes => "bytes"
  | bytesLenient => "bytes_lenient"
  | skip => "skip"
  | skipIfOdd => "skip_if_odd"
  | bitfield => "bitfield"
  | vintId => "ebml_vint_id"
  | vintSize => "ebml_vint_size"
  | list => "list"
  | template => "template_ref"
  | branch => "if"
  | switch => "switch"
  | bounded => "bounded"
  | align => "align"
  | withByteOrder => "with_byte_order"
  | assert => "assert"
  | bind => "let"
  | set => "set"
  | skipBlank => "skip_ws"
  | peekBytes => "peek_bytes"
  | asciiUntil => "ascii_until"
  | bytesUntil => "bytes_until_seq"
  | bytesUntilMarker => "bytes_until_prefixed"

def ofTag? (tag : String) : Option NodeKind := all.find? fun kind => kind.tag = tag

end NodeKind

def Action.kind : Action → NodeKind
  | uint .. => .uint
  | int .. => .int
  | ascii .. => .ascii
  | bytes .. => .bytes
  | bytesLenient .. => .bytesLenient
  | skip .. => .skip
  | skipIfOdd .. => .skipIfOdd
  | bitfield .. => .bitfield
  | vintId .. => .vintId
  | vintSize .. => .vintSize
  | align .. => .align
  | assert .. => .assert
  | bind .. => .bind
  | set .. => .set
  | skipBlank => .skipBlank
  | peekBytes .. => .peekBytes
  | asciiUntil .. => .asciiUntil
  | bytesUntil .. => .bytesUntil
  | bytesUntilMarker .. => .bytesUntilMarker

def Node.kind : Node → NodeKind
  | .action a => a.kind
  | .list .. => .list
  | .template .. => .template
  | .branch .. => .branch
  | .switch .. => .switch
  | .bounded .. => .bounded
  | .withByteOrder .. => .withByteOrder

/-- A field of some kinds of nodes, by its name and what it holds. -/
inductive Field where
  | id | optionalId | length | window | ref | bits | items | count | stopWhen | readUntil
  | emitWhen | params | condition | spec | otherwise | on | cases | default | multiple | basis
  | byteOrder | message | expr | terminators | maxLen | seq | marker | values | ranges
  deriving DecidableEq

namespace Field

def name : Field → String
  | id | optionalId => "id"
  | length | window => "length"
  | ref => "ref"
  | bits | spec => "spec"
  | items => "items"
  | count => "count"
  | stopWhen => "stop_when"
  | readUntil => "read_until"
  | emitWhen => "emit_when"
  | params => "params"
  | condition => "condition"
  | otherwise => "else"
  | on => "on"
  | cases => "cases"
  | default => "default"
  | multiple => "to"
  | basis => "basis"
  | byteOrder => "byte_order"
  | message => "message"
  | expr => "expr"
  | terminators => "terminators"
  | maxLen => "max_len"
  | seq => "seq"
  | marker => "prefix"
  | values => "passthrough_values"
  | ranges => "passthrough_ranges"

/-- A second name. -/
def alias? : Field → Option String
  | window => some "length_expr"
  | expr => some "value"
  | byteOrder => some "byteOrder"
  | _ => none

abbrev Content : Field → Type
  | id | message => String
  | optionalId => Option String
  | length | window | ref | condition | on | multiple | expr => Term
  | count | stopWhen | readUntil | emitWhen | maxLen => Option Term
  | bits => List BitField
  | items | spec | otherwise => List Node
  | cases => List (String × List Node)
  | default => Option (List Node)
  | params => Arguments
  | basis => Basis
  | byteOrder => ByteOrder
  | terminators | seq | values => List UInt8
  | marker => UInt8
  | ranges => List (UInt8 × UInt8)

def isNamed (f : Field) (key : String) : Bool := f.name = key || f.alias? = some key

/-- What stands for the field where it is missing. -/
def absent? : (f : Field) → Option f.Content
  | optionalId | count | stopWhen | readUntil | emitWhen | maxLen | default => some none
  | params => some (.positional [])
  | otherwise | values | ranges => some []
  | basis => some .scope
  | _ => none

end Field

namespace NodeKind

def fields : NodeKind → List Field
  | uint | int | ascii | bytes | bytesLenient | peekBytes => [.id, .length]
  | skip => [.length]
  | skipIfOdd => [.ref]
  | bitfield => [.optionalId, .bits]
  | vintId | vintSize => [.id]
  | list => [.id, .items, .count, .stopWhen, .readUntil, .emitWhen]
  | template => [.id, .params]
  | branch => [.condition, .spec, .otherwise]
  | switch => [.on, .cases, .default]
  | bounded => [.id, .window, .spec]
  | align => [.multiple, .basis]
  | withByteOrder => [.byteOrder, .spec]
  | assert => [.condition, .message]
  | bind | set => [.id, .expr]
  | skipBlank => []
  | asciiUntil => [.id, .terminators, .maxLen]
  | bytesUntil => [.id, .seq, .maxLen]
  | bytesUntilMarker => [.id, .marker, .values, .ranges]

/-- The field of a kind that a key names. -/
def field? (kind : NodeKind) (key : String) : Option Field :=
  kind.fields.find? fun f => f.isNamed key

end NodeKind

/-- The fields of a node as far as they were read, the latest first. -/
abbrev Draft := List ((f : Field) × f.Content)

namespace Draft

def get? (draft : Draft) (f : Field) : Option f.Content :=
  match draft with
  | [] => none
  | ⟨g, content⟩ :: rest => if h : g = f then some (h ▸ content) else get? rest f

def need (draft : Draft) (f : Field) : Except Mismatch f.Content :=
  match (draft.get? f).or f.absent? with
  | some content => .ok content
  | none => .error (.missingField f.name)

/-- The node of a kind. The fields are looked for in order. -/
def toNode (draft : Draft) : NodeKind → Except Mismatch Node
  | .uint => do return .action (.uint (← draft.need .id) (← draft.need .length))
  | .int => do return .action (.int (← draft.need .id) (← draft.need .length))
  | .ascii => do return .action (.ascii (← draft.need .id) (← draft.need .length))
  | .bytes => do return .action (.bytes (← draft.need .id) (← draft.need .length))
  | .bytesLenient => do
    return .action (.bytesLenient (← draft.need .id) (← draft.need .length))
  | .skip => do return .action (.skip (← draft.need .length))
  | .skipIfOdd => do return .action (.skipIfOdd (← draft.need .ref))
  | .bitfield => do return .action (.bitfield (← draft.need .optionalId) (← draft.need .bits))
  | .vintId => do return .action (.vintId (← draft.need .id))
  | .vintSize => do return .action (.vintSize (← draft.need .id))
  | .list => do
    return .list (← draft.need .id) (← draft.need .items) (← draft.need .count)
      (← draft.need .stopWhen) (← draft.need .readUntil) (← draft.need .emitWhen)
  | .template => do return .template (← draft.need .id) (← draft.need .params)
  | .branch => do
    return .branch (← draft.need .condition) (← draft.need .spec) (← draft.need .otherwise)
  | .switch => do
    return .switch (← draft.need .on) (← draft.need .cases) (← draft.need .default)
  | .bounded => do
    return .bounded (← draft.need .id) (← draft.need .window) (← draft.need .spec)
  | .align => do return .action (.align (← draft.need .multiple) (← draft.need .basis))
  | .withByteOrder => do
    return .withByteOrder (← draft.need .byteOrder) (← draft.need .spec)
  | .assert => do
    return .action (.assert (← draft.need .condition) (← draft.need .message))
  | .bind => do return .action (.bind (← draft.need .id) (← draft.need .expr))
  | .set => do return .action (.set (← draft.need .id) (← draft.need .expr))
  | .skipBlank => .ok (.action .skipBlank)
  | .peekBytes => do return .action (.peekBytes (← draft.need .id) (← draft.need .length))
  | .asciiUntil => do
    return .action (.asciiUntil (← draft.need .id) (← draft.need .terminators)
      (← draft.need .maxLen))
  | .bytesUntil => do
    return .action (.bytesUntil (← draft.need .id) (← draft.need .seq) (← draft.need .maxLen))
  | .bytesUntilMarker => do
    return .action (.bytesUntilMarker (← draft.need .id) (← draft.need .marker)
      (← draft.need .values) (← draft.need .ranges))

/-- The same for fields that stand without names: one that is missing has no name either. -/
def toUnnamedNode (draft : Draft) (kind : NodeKind) : Except Mismatch Node :=
  (draft.toNode kind).mapError fun _ => .shape

end Draft

end ByteSchema
