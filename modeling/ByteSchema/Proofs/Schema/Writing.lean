import ByteSchema.Proofs.Schema.Reading

/-!
# Writing schemas

`Schema.toJson` writes a schema with every field under its first name, in the order of the fields.
-/

namespace ByteSchema

/-! ### Contents without nodes -/

def BitField.toJson (b : BitField) : Json :=
  .object [("bits", .ofByte b.bits), ("id", b.id.elim .null .text), ("type", .text b.kind.name)]

def Arguments.toJson : Arguments → Json
  | positional terms => .list (Term.toItems terms)
  | named terms => .object (terms.map fun t => (t.1, t.2.toJson))

def Basis.toJson : Basis → Json
  | scope => .text "scope"
  | global => .text "global"
  | term t => t.toJson

/-- The calls in what a field holds are named, and its keys are there once. -/
def Field.Sound : (f : Field) → f.Content → Prop
  | .length, t | .window, t | .ref, t | .condition, t | .on, t | .multiple, t | .expr, t =>
    Term.namesCalls t = true
  | .count, t | .stopWhen, t | .readUntil, t | .emitWhen, t | .maxLen, t =>
    ∀ u, t = some u → Term.namesCalls u = true
  | .params, .positional terms => Term.namesCallsAll terms = true
  | .params, .named terms =>
    (terms.map Prod.fst).Nodup ∧ ∀ t ∈ terms, Term.namesCalls t.2 = true
  | .basis, b => ∀ t, b = .term t → t.namesCalls = true
  | .cases, cs => (List.map Prod.fst cs).Nodup
  | _, _ => True

theorem BitField.encodes_toJson (b : BitField) : b.Encodes b.toJson :=
  .object (.written List.mem_cons_self rfl) (.written List.mem_cons_self rfl) (.refl _)

theorem Arguments.encodes_toJson (arguments : Arguments) (h : Field.Sound .params arguments) :
    arguments.Encodes arguments.toJson := by
  cases arguments with
  | positional terms => exact .positional (Term.encodes_toItems terms h)
  | named terms =>
    obtain ⟨single, sound⟩ := h
    refine .named single (List.forall₂_map_right_iff.mpr (List.forall₂_same.mpr ?_))
    exact fun t ht => ⟨rfl, t.2.encodes_toJson (sound t ht)⟩

theorem Basis.encodes_toJson (basis : Basis)
    (h : ∀ t, basis = .term t → t.namesCalls = true) : basis.Encodes basis.toJson := by
  cases basis with
  | scope => exact .scope
  | global => exact .global
  | term t => exact .term (t.encodes_toJson (h t rfl))

theorem ByteOrder.encodes_name (order : ByteOrder) : order.Encodes (.text order.name) := by
  cases order <;> exact .name rfl

theorem Term.encodes_optional {t : Option Term} (h : ∀ u, t = some u → u.namesCalls = true) :
    t.elim (t.elim .null toJson = .null) fun u => u.Encodes (t.elim .null toJson) := by
  cases t with
  | none => rfl
  | some t => exact t.encodes_toJson (h t rfl)

/-! ### Nodes -/

def NodeKind.object (kind : NodeKind) (parts : List (Field × Json)) : Json :=
  .object (("type", .text kind.tag) :: parts.map fun part => (part.1.name, part.2))

def Action.toJson (a : Action) : Json :=
  a.kind.object <| match a with
    | uint id length | int id length | ascii id length | bytes id length | bytesLenient id length
    | peekBytes id length => [(.id, .text id), (.length, length.toJson)]
    | skip length => [(.length, length.toJson)]
    | skipIfOdd term => [(.ref, term.toJson)]
    | bitfield id bits =>
      [(.optionalId, id.elim .null .text), (.bits, .list (bits.map BitField.toJson))]
    | vintId id | vintSize id => [(.id, .text id)]
    | align multiple basis => [(.multiple, multiple.toJson), (.basis, basis.toJson)]
    | assert condition message => [(.condition, condition.toJson), (.message, .text message)]
    | bind id value | set id value => [(.id, .text id), (.expr, value.toJson)]
    | skipBlank => []
    | asciiUntil id terminators limit => [(.id, .text id),
        (.terminators, .list (terminators.map .ofByte)), (.maxLen, limit.elim .null Term.toJson)]
    | bytesUntil id sequence limit => [(.id, .text id),
        (.seq, .list (sequence.map .ofByte)), (.maxLen, limit.elim .null Term.toJson)]
    | bytesUntilMarker id marker values ranges => [(.id, .text id), (.marker, .ofByte marker),
        (.values, .list (values.map .ofByte)),
        (.ranges, .list (ranges.map fun r => .list [.ofByte r.1, .ofByte r.2]))]

namespace Node

mutual

def toJson : Node → Json
  | action a => a.toJson
  | list id items count stopWhen readUntil emitWhen => NodeKind.object .list
      [(.id, .text id), (.items, .list (toItems items)), (.count, count.elim .null Term.toJson),
        (.stopWhen, stopWhen.elim .null Term.toJson),
        (.readUntil, readUntil.elim .null Term.toJson),
        (.emitWhen, emitWhen.elim .null Term.toJson)]
  | template name arguments => NodeKind.object .template
      [(.id, .text name), (.params, arguments.toJson)]
  | branch condition spec otherwise => NodeKind.object .branch
      [(.condition, condition.toJson), (.spec, .list (toItems spec)),
        (.otherwise, .list (toItems otherwise))]
  | switch on cases default => NodeKind.object .switch
      [(.on, on.toJson), (.cases, .object (toCases cases)), (.default, toDefault default)]
  | bounded id length spec => NodeKind.object .bounded
      [(.id, .text id), (.window, length.toJson), (.spec, .list (toItems spec))]
  | withByteOrder order spec => NodeKind.object .withByteOrder
      [(.byteOrder, .text order.name), (.spec, .list (toItems spec))]

def toItems : List Node → List Json
  | [] => []
  | node :: nodes => toJson node :: toItems nodes

def toCases : List (String × List Node) → List (String × Json)
  | [] => []
  | (key, nodes) :: cases => (key, .list (toItems nodes)) :: toCases cases

def toDefault : Option (List Node) → Json
  | none => .null
  | some nodes => .list (toItems nodes)

end

theorem encodes_object {node : Node} {parts : List (Field × Json)}
    (h : List.Forall₂ (fun entry part => entry.1 = part.1 ∧ EncodesField entry.1 entry.2 part.2)
      node.fields parts) : Encodes node (node.kind.object parts) := by
  refine .object ?_ (.refl _)
  generalize node.fields = fields at h
  induction h with
  | nil => exact .nil
  | cons first _ ih =>
    obtain ⟨same, encoded⟩ := first
    refine .written ?_ encoded ih
    rw [same, Field.isNamed, decide_eq_true rfl, Bool.true_or]

theorem encodes_plain {a : Action} {parts : List (Field × Json)}
    (h : List.Forall₂ (fun entry part => entry.1 = part.1 ∧ entry.1.Holds entry.2 part.2)
      a.fields parts) : Encodes (.action a) (a.kind.object parts) :=
  @encodes_object (.action a) parts (h.imp fun _ _ holds => ⟨holds.1, .plain holds.2⟩)

end Node

theorem Action.encodes_toJson (a : Action) (h : ∀ entry ∈ a.fields, entry.1.Sound entry.2) :
    Node.Encodes (.action a) a.toJson := by
  refine Node.encodes_plain ?_
  cases a <;>
    simp_all [fields, Field.Sound, Field.Holds, Term.encodes_toJson, Term.encodes_optional,
      BitField.encodes_toJson, Basis.encodes_toJson]

namespace Node

/-- What the node and the nodes inside it hold can be written. -/
def Regular (node : Node) : Prop :=
  ∀ inner ∈ node.nested, ∀ entry ∈ inner.fields, entry.1.Sound entry.2

theorem encodes_toItems {nodes : List Node} (h : ∀ node ∈ nodes, Encodes node node.toJson) :
    EncodesAll nodes (toItems nodes) := by
  induction nodes with
  | nil => exact .nil
  | cons node nodes ih =>
    obtain ⟨first, rest⟩ := List.forall_mem_cons.mp h
    exact .cons first (ih rest)

theorem encodes_toCases {cases : List (String × List Node)}
    (h : ∀ node ∈ cases.flatMap fun c => c.2, Encodes node node.toJson) :
    EncodesCases cases (toCases cases) := by
  induction cases with
  | nil => exact .nil
  | cons c cases ih =>
    rw [List.flatMap_cons] at h
    obtain ⟨first, rest⟩ := List.forall_mem_append.mp h
    exact .cons (encodes_toItems first) (ih rest)

theorem encodes_toDefault {default : Option (List Node)}
    (h : ∀ node ∈ default.getD [], Encodes node node.toJson) :
    EncodesField .default default (toDefault default) := by
  cases default with
  | none => exact .noDefault
  | some nodes => exact .default (encodes_toItems h)

theorem encodes_toJson (node : Node) (h : node.Regular) : Encodes node node.toJson := by
  induction node using Node.induct with
  | step node ih =>
    have sound := h node node.self_mem_nested
    have blocks : ∀ child ∈ node.children, Encodes child child.toJson := by
      intro child hchild
      refine ih child hchild fun inner hinner => h inner ?_
      rw [nested_eq]
      exact .tail _ (List.mem_flatMap.mpr ⟨child, hchild, hinner⟩)
    cases node with
    | action a => exact a.encodes_toJson sound
    | list id items count stopWhen readUntil emitWhen =>
      simp only [fields, List.forall_mem_cons] at sound
      obtain ⟨-, -, hcount, hstop, huntil, hemit, -⟩ := sound
      exact encodes_object (.cons ⟨rfl, .plain rfl⟩ (.cons ⟨rfl, .items (encodes_toItems blocks)⟩
        (.cons ⟨rfl, .plain (Term.encodes_optional hcount)⟩
        (.cons ⟨rfl, .plain (Term.encodes_optional hstop)⟩
        (.cons ⟨rfl, .plain (Term.encodes_optional huntil)⟩
        (.cons ⟨rfl, .plain (Term.encodes_optional hemit)⟩ .nil))))))
    | template name arguments =>
      simp only [fields, List.forall_mem_cons] at sound
      obtain ⟨-, harguments, -⟩ := sound
      exact encodes_object (.cons ⟨rfl, .plain rfl⟩
        (.cons ⟨rfl, .plain (arguments.encodes_toJson harguments)⟩ .nil))
    | branch condition spec otherwise =>
      simp only [fields, List.forall_mem_cons] at sound
      obtain ⟨hspec, hotherwise⟩ := List.forall_mem_append.mp blocks
      exact encodes_object (.cons ⟨rfl, .plain (condition.encodes_toJson sound.1)⟩
        (.cons ⟨rfl, .spec (encodes_toItems hspec)⟩
        (.cons ⟨rfl, .otherwise (encodes_toItems hotherwise)⟩ .nil)))
    | switch on cases default =>
      simp only [fields, List.forall_mem_cons] at sound
      obtain ⟨hon, hkeys, -⟩ := sound
      obtain ⟨hcases, hdefault⟩ := List.forall_mem_append.mp blocks
      exact encodes_object (.cons ⟨rfl, .plain (on.encodes_toJson hon)⟩
        (.cons ⟨rfl, .cases hkeys (encodes_toCases hcases)⟩
        (.cons ⟨rfl, encodes_toDefault hdefault⟩ .nil)))
    | bounded id length spec =>
      simp only [fields, List.forall_mem_cons] at sound
      obtain ⟨-, hlength, -⟩ := sound
      exact encodes_object (.cons ⟨rfl, .plain rfl⟩
        (.cons ⟨rfl, .plain (length.encodes_toJson hlength)⟩
        (.cons ⟨rfl, .spec (encodes_toItems blocks)⟩ .nil)))
    | withByteOrder order spec =>
      exact encodes_object (.cons ⟨rfl, .plain order.encodes_name⟩
        (.cons ⟨rfl, .spec (encodes_toItems blocks)⟩ .nil))

end Node

/-! ### Schemas -/

def Template.toJson (t : Template) : Json :=
  .object [("spec", .list (Node.toItems t.spec)), ("params", .list (t.parameters.map .text))]

namespace Schema

def toJson (schema : Schema) : Json :=
  .object [("spec", .list (Node.toItems schema.spec)),
    ("byte_order", .text schema.byteOrder.name),
    ("templates", .object (schema.templates.map fun t => (t.1, t.2.toJson)))]

/-- Templates have one name each, the cases of a switch one key each and named arguments one name
each, and all calls in the schema are named. -/
structure Regular (schema : Schema) : Prop where
  names : (schema.templates.map Prod.fst).Nodup
  bodies : ∀ t ∈ schema.templates, ∀ node ∈ t.2.spec, node.Regular
  spec : ∀ node ∈ schema.spec, node.Regular

theorem encodes_toJson {schema : Schema} (h : schema.Regular) :
    schema.Encodes schema.toJson := by
  have template : ∀ t ∈ schema.templates, t.2.Encodes t.2.toJson := by
    intro t ht
    have spec := Node.encodes_toItems fun node hnode =>
      node.encodes_toJson (h.bodies t ht node hnode)
    exact .object spec (.written List.mem_cons_self rfl) (.refl _)
  have templates : Template.EncodesAll schema.templates
      (.object (schema.templates.map fun t => (t.1, t.2.toJson))) := by
    refine .object h.names (List.forall₂_map_right_iff.mpr (List.forall₂_same.mpr ?_))
    exact fun t ht => ⟨rfl, template t ht⟩
  have spec := Node.encodes_toItems fun node hnode => node.encodes_toJson (h.spec node hnode)
  exact .object spec (.written List.mem_cons_self schema.byteOrder.encodes_name)
    (.written List.mem_cons_self templates) (.refl _)

/-- Reading a schema undoes writing it: its tree is read as the schema, at every number of levels
that holds the tree, and so is every tree with the members of nodes and of the whole in another
order, with other names of fields or without fields that stand for nothing. -/
theorem reading_undoes_writing {schema : Schema} (regular : schema.Regular) :
    schema.Encodes schema.toJson ∧
      ∀ tree, schema.Encodes tree → ∀ levels, tree.depth ≤ levels →
        ofSource levels (.ofJson tree) = .ok schema :=
  ⟨encodes_toJson regular, fun _ encoded _ shallow => ofSource_encodes encoded shallow⟩

namespace SchemaSample

/-- A region as long as a `match` says, whose items come from a template. -/
def tails : Schema where
  byteOrder := .big
  templates := [("tail", ⟨["n"], [.action (.skip (.ref "n"))]⟩)]
  spec := [.bounded "tails" (.select (.ref "eq") [(.uint 1, .call [.text "size"])])
    [.template "tail" (.named [("n", .uint 2)])]]

def lengthBackwards : Json :=
  .object [("match", .object [
    ("cases", .list [.object [
      ("then", .object [("call", .list [.object [("text", .text "size")]])]),
      ("when", .number (.natural 1))]]),
    ("condition", .object [("ref", .text "eq")])])]

def nodeBackwards : Json :=
  .object [
    ("spec", .list [.object [
      ("params", .object [("n", .number (.natural 2))]),
      ("id", .text "tail"),
      ("type", .text "template_ref")]]),
    ("length_expr", lengthBackwards),
    ("id", .text "tails"),
    ("type", .text "bounded")]

/-- All members stand in the other order, and under their second names. -/
def tailsBackwards : Json :=
  .object [
    ("templates", .object [("tail", .object [
      ("params", .list [.text "n"]),
      ("spec", .list [.object [
        ("length", .object [("ref", .text "n")]),
        ("type", .text "skip")]])])]),
    ("byteOrder", .text "be"),
    ("spec", .list [nodeBackwards])]

theorem regular_tails : tails.Regular where
  names := by decide
  bodies := by
    simp [tails, Node.Regular, Node.nested, Node.fields, Action.fields, Field.Sound,
      Term.namesCalls]
  spec := by
    simp [tails, Node.Regular, Node.nested, Node.nestedAll, Node.fields, Field.Sound,
      Term.namesCalls, Term.namesCallsAll, Term.namesCallsCases]

theorem encodes_lengthBackwards :
    Term.Encodes (.select (.ref "eq") [(.uint 1, .call [.text "size"])]) lengthBackwards := by
  have callee : Term.EncodesAll [.text "size"] _ := .cons (.text "size") .nil
  have cases : Term.EncodesCases [(.uint 1, .call [.text "size"])] _ :=
    .cons (.uint 1) (.call (List.cons_ne_nil _ _) callee) (.swap _ _ _) .nil
  exact .select (.inr rfl) (.ref "eq") cases (.swap _ _ _)

theorem encodes_tailsBackwards : tails.Encodes tailsBackwards := by
  have three {a b c : String × Json} : [a, b, c].Perm [c, b, a] := List.reverse_perm [c, b, a]
  have four {a b c d : String × Json} : [a, b, c, d].Perm [d, c, b, a] :=
    List.reverse_perm [d, c, b, a]
  have arguments : Arguments.Encodes (.named [("n", .uint 2)])
      (.object [("n", .number (.natural 2))]) :=
    .named (List.nodup_singleton _) (List.forall₂_cons.mpr ⟨⟨rfl, .uint 2⟩, .nil⟩)
  have call : Node.Encodes (.template "tail" (.named [("n", .uint 2)])) (.object
      [("params", .object [("n", .number (.natural 2))]), ("id", .text "tail"),
        ("type", .text "template_ref")]) :=
    .object (.written rfl (.plain rfl) (.written rfl (.plain arguments) .nil)) three
  have region : Node.Encodes (.bounded "tails" (.select (.ref "eq")
      [(.uint 1, .call [.text "size"])]) [.template "tail" (.named [("n", .uint 2)])])
      nodeBackwards :=
    .object (.written rfl (.plain rfl) (.written rfl (.plain encodes_lengthBackwards)
      (.written rfl (.spec (.cons call .nil)) .nil))) four
  have skip : Node.Encodes (.action (.skip (.ref "n"))) (.object
      [("length", .object [("ref", .text "n")]), ("type", .text "skip")]) :=
    .object (.written rfl (.plain (.ref "n")) .nil) (.swap _ _ _)
  have tail : Template.Encodes ⟨["n"], [.action (.skip (.ref "n"))]⟩ _ :=
    .object (.cons skip .nil) (.written List.mem_cons_self rfl) (.swap _ _ _)
  have templates : Template.EncodesAll tails.templates _ :=
    @Template.EncodesAll.object _ [("tail", _)] (List.nodup_singleton _)
      (List.forall₂_cons.mpr ⟨⟨rfl, tail⟩, .nil⟩)
  exact .object (.cons region .nil) (.written (.tail _ List.mem_cons_self) (.name rfl))
    (.written List.mem_cons_self templates) three

end SchemaSample

open SchemaSample in
theorem reading_undoes_writing_backwards : tails.Regular ∧ tails.Encodes tailsBackwards ∧
    ofSource maxLevels (.ofJson tailsBackwards) = .ok tails :=
  ⟨regular_tails, encodes_tailsBackwards, (reading_undoes_writing regular_tails).2 tailsBackwards
    encodes_tailsBackwards maxLevels (by decide)⟩

end Schema

end ByteSchema
