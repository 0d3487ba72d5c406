import ByteSchema.Proofs.Decode.Nodes
import ByteSchema.Proofs.Schema.Terms
import ByteSchema.Schema.Reader

/-!
# Schemas and their trees

`Schema.Encodes` says that a tree writes a schema out: a node as an object with its tag and its
fields, in any order and each under one of its names, where a field may be missing if what it holds
is what stands for it then. `Schema.toJson` is such a tree for every schema that is `Regular`.
-/

namespace ByteSchema

def Json.ofByte (b : UInt8) : Json := .number (.natural b.toUInt64)

/-! ### Contents without nodes -/

/-- The members for a part of an object: one under a key of its own, or none where `blank`. -/
inductive Part (keys : List String) (holds : Json → Prop) (blank : Prop) :
    List (String × Json) → Prop
  | written {key : String} {j : Json} : key ∈ keys → holds j → Part keys holds blank [(key, j)]
  | omitted : blank → Part keys holds blank []

def BitKind.name : BitKind → String
  | uint => "uint"
  | boolean => "boolean"

inductive BitField.Encodes (b : BitField) : Json → Prop
  | object {id kind members : List (String × Json)} :
      Part ["id"] (fun j => j = b.id.elim .null .text) (b.id = none) id →
      Part ["type"] (fun j => j = .text b.kind.name) (b.kind = .uint) kind →
      members.Perm (("bits", .ofByte b.bits) :: (id ++ kind)) → Encodes b (.object members)

inductive Arguments.Encodes : Arguments → Json → Prop
  | positional {terms : List Term} {items : List Json} : Term.EncodesAll terms items →
      Encodes (.positional terms) (.list items)
  | named {terms : List (String × Term)} {members : List (String × Json)} :
      (terms.map Prod.fst).Nodup →
      List.Forall₂ (fun term member => term.1 = member.1 ∧ term.2.Encodes member.2) terms members →
      Encodes (.named terms) (.object members)

inductive Basis.Encodes : Basis → Json → Prop
  | scope : Encodes .scope (.text "scope")
  | global : Encodes .global (.text "global")
  | term {t : Term} {j : Json} : t.Encodes j → Encodes (.term t) j

inductive ByteOrder.Encodes (order : ByteOrder) : Json → Prop
  | name {name : String} : Content.orderOfName? name = some order → Encodes order (.text name)

/-- What a field without nodes holds, and its tree. -/
def Field.Holds : (f : Field) → f.Content → Json → Prop
  | .id, s, j | .message, s, j => j = .text s
  | .optionalId, s, j => j = s.elim .null .text
  | .length, t, j | .window, t, j | .ref, t, j | .condition, t, j | .on, t, j | .multiple, t, j
  | .expr, t, j => t.Encodes j
  | .count, t, j | .stopWhen, t, j | .readUntil, t, j | .emitWhen, t, j | .maxLen, t, j =>
    t.elim (j = .null) (fun t => t.Encodes j)
  | .bits, bs, j => ∃ items, j = .list items ∧ List.Forall₂ BitField.Encodes bs items
  | .params, a, j => Arguments.Encodes a j
  | .basis, b, j => Basis.Encodes b j
  | .byteOrder, o, j => ByteOrder.Encodes o j
  | .terminators, bs, j | .seq, bs, j | .values, bs, j => j = .list (bs.map Json.ofByte)
  | .marker, b, j => j = .ofByte b
  | .ranges, rs, j => j = .list (rs.map fun r => .list [.ofByte r.1, .ofByte r.2])
  | .items, _, _ | .spec, _, _ | .otherwise, _, _ | .cases, _, _ | .default, _, _ => False

/-! ### Nodes -/

def Action.fields : Action → Draft
  | uint id length | int id length | ascii id length | bytes id length | bytesLenient id length
  | peekBytes id length => [⟨.id, id⟩, ⟨.length, length⟩]
  | skip length => [⟨.length, length⟩]
  | skipIfOdd term => [⟨.ref, term⟩]
  | bitfield id bits => [⟨.optionalId, id⟩, ⟨.bits, bits⟩]
  | vintId id | vintSize id => [⟨.id, id⟩]
  | align multiple basis => [⟨.multiple, multiple⟩, ⟨.basis, basis⟩]
  | assert condition message => [⟨.condition, condition⟩, ⟨.message, message⟩]
  | bind id value | set id value => [⟨.id, id⟩, ⟨.expr, value⟩]
  | skipBlank => []
  | asciiUntil id terminators limit =>
    [⟨.id, id⟩, ⟨.terminators, terminators⟩, ⟨.maxLen, limit⟩]
  | bytesUntil id sequence limit => [⟨.id, id⟩, ⟨.seq, sequence⟩, ⟨.maxLen, limit⟩]
  | bytesUntilMarker id marker values ranges =>
    [⟨.id, id⟩, ⟨.marker, marker⟩, ⟨.values, values⟩, ⟨.ranges, ranges⟩]

namespace Node

/-- What a node holds, in the order of the fields of its kind. -/
def fields : Node → Draft
  | action a => a.fields
  | list id items count stopWhen readUntil emitWhen =>
    [⟨.id, id⟩, ⟨.items, items⟩, ⟨.count, count⟩, ⟨.stopWhen, stopWhen⟩,
      ⟨.readUntil, readUntil⟩, ⟨.emitWhen, emitWhen⟩]
  | template name arguments => [⟨.id, name⟩, ⟨.params, arguments⟩]
  | branch condition spec otherwise =>
    [⟨.condition, condition⟩, ⟨.spec, spec⟩, ⟨.otherwise, otherwise⟩]
  | switch on cases default => [⟨.on, on⟩, ⟨.cases, cases⟩, ⟨.default, default⟩]
  | bounded id length spec => [⟨.id, id⟩, ⟨.window, length⟩, ⟨.spec, spec⟩]
  | withByteOrder order spec => [⟨.byteOrder, order⟩, ⟨.spec, spec⟩]

mutual

inductive Encodes : Node → Json → Prop
  | object {node : Node} {parts members : List (String × Json)} : EncodesFields node.fields parts →
      members.Perm (("type", .text node.kind.tag) :: parts) → Encodes node (.object members)

inductive EncodesFields : Draft → List (String × Json) → Prop
  | nil : EncodesFields [] []
  | written {f : Field} {content : f.Content} {key : String} {j : Json} {fields : Draft}
      {parts : List (String × Json)} : f.isNamed key = true → EncodesField f content j →
      EncodesFields fields parts → EncodesFields (⟨f, content⟩ :: fields) ((key, j) :: parts)
  | omitted {f : Field} {content : f.Content} {fields : Draft} {parts : List (String × Json)} :
      f.absent? = some content → EncodesFields fields parts →
      EncodesFields (⟨f, content⟩ :: fields) parts

inductive EncodesField : (f : Field) → f.Content → Json → Prop
  | plain {f : Field} {content : f.Content} {j : Json} : f.Holds content j →
      EncodesField f content j
  | items {nodes : List Node} {items : List Json} : EncodesAll nodes items →
      EncodesField .items nodes (.list items)
  | spec {nodes : List Node} {items : List Json} : EncodesAll nodes items →
      EncodesField .spec nodes (.list items)
  | otherwise {nodes : List Node} {items : List Json} : EncodesAll nodes items →
      EncodesField .otherwise nodes (.list items)
  | cases {cases : List (String × List Node)} {members : List (String × Json)} :
      (cases.map Prod.fst).Nodup → EncodesCases cases members →
      EncodesField .cases cases (.object members)
  | noDefault : EncodesField .default none .null
  | default {nodes : List Node} {items : List Json} : EncodesAll nodes items →
      EncodesField .default (some nodes) (.list items)

inductive EncodesAll : List Node → List Json → Prop
  | nil : EncodesAll [] []
  | cons {node : Node} {j : Json} {nodes : List Node} {items : List Json} : Encodes node j →
      EncodesAll nodes items → EncodesAll (node :: nodes) (j :: items)

inductive EncodesCases : List (String × List Node) → List (String × Json) → Prop
  | nil : EncodesCases [] []
  | cons {key : String} {nodes : List Node} {items : List Json}
      {cases : List (String × List Node)} {members : List (String × Json)} :
      EncodesAll nodes items → EncodesCases cases members →
      EncodesCases ((key, nodes) :: cases) ((key, .list items) :: members)

end

theorem EncodesAll.forall₂ {nodes : List Node} {items : List Json}
    (h : EncodesAll nodes items) : List.Forall₂ Encodes nodes items := by
  induction items generalizing nodes with
  | nil =>
    cases h
    exact .nil
  | cons item items ih =>
    cases h with
    | cons first rest => exact .cons first (ih rest)

end Node

/-! ### Schemas -/

inductive Template.Encodes (t : Template) : Json → Prop
  | object {items : List Json} {parameters members : List (String × Json)} :
      Node.EncodesAll t.spec items →
      Part ["params"] (fun j => j = .list (t.parameters.map .text)) (t.parameters = []) parameters →
      members.Perm (("spec", .list items) :: parameters) → Encodes t (.object members)

/-- The templates in their order. -/
inductive Template.EncodesAll (templates : List (String × Template)) : Json → Prop
  | object {members : List (String × Json)} : (templates.map Prod.fst).Nodup →
      List.Forall₂ (fun t member => t.1 = member.1 ∧ t.2.Encodes member.2) templates members →
      EncodesAll templates (.object members)

inductive Schema.Encodes (schema : Schema) : Json → Prop
  | object {items : List Json} {order templates members : List (String × Json)} :
      Node.EncodesAll schema.spec items →
      Part ["byte_order", "byteOrder"] schema.byteOrder.Encodes (schema.byteOrder = .little) order →
      Part ["templates"] (Template.EncodesAll schema.templates) (schema.templates = []) templates →
      members.Perm (("spec", .list items) :: (order ++ templates)) →
      Encodes schema (.object members)

end ByteSchema
