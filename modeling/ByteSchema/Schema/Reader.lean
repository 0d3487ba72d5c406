import ByteSchema.Json.Reader
import ByteSchema.Schema.NodeReader

/-!
# Schemas from JSON texts

`Schema.parse` goes through the text once, in order. Names of templates and of the parts of a
schema are taken as they come; the members of a node are read as values first, and as fields once
the whole node is there. A member that the schema has no use for is passed over.
-/

namespace ByteSchema

def Mismatch.ofFault : Json.Fault → Mismatch
  | .truncated => .truncated
  | .malformed => .malformed

namespace Schema

open Json (Source)

/-- Something else was due here. A list or an object is not looked into. -/
def unfit : Source → Mismatch
  | .fault f _ => .ofFault f
  | .misspelt f _ => .ofFault f
  | _ => .shape

def readValue (levels : Nat) (s : Source) : Except Mismatch Json :=
  (s.strict levels).mapError .ofFault

def readName (key : Source) : Except Mismatch String :=
  key.name.mapError .ofFault

/-- Nothing more may follow here but the end. -/
def close (ending : Option Json.Fault) : Except Mismatch Unit :=
  (Source.close ending).mapError .ofFault

/-- Passes over a member. -/
def ignore (s : Source) : Except Mismatch Unit :=
  match s.skip with
  | some f => .error (.ofFault f)
  | none => .ok ()

def orderOfName (name : String) : Except Mismatch ByteOrder :=
  match Content.orderOfName? name with
  | some order => .ok order
  | none => .error (.unknownVariant name)

/-- A byte order: its name, or an object that gives the name nothing. -/
def readOrder : Source → Except Mismatch ByteOrder
  | .object [] _ => .error .malformed
  | .object ((key, value) :: rest) ending => do
    let order ← orderOfName (← readName key)
    match value with
    | .null => if rest.isEmpty then close ending else throw .malformed
    | s => throw (unfit s)
    return order
  | s => do orderOfName (← readName s)

def readText : Source → Except Mismatch String
  | .text s => .ok s
  | s => .error (unfit s)

/-- The items of a list one by one. -/
def readItems {α : Type} (read : Source → Except Mismatch α) : Source → Except Mismatch (List α)
  | .list items ending => do
    let all ← items.mapM read
    close ending
    return all
  | s => .error (unfit s)

/-- Takes up the members of an object one by one. A list stands for the members `names` in this
order, and may be shorter. -/
def readMembers {α : Type} (names : List String) (add : α → String → Source → Except Mismatch α)
    (start : α) : Source → Except Mismatch α
  | .object members ending => do
    let all ← members.foldlM (fun a (key, s) => do add a (← readName key) s) start
    close ending
    return all
  | .list items ending => do
    let all ← (names.zip items).foldlM (fun a (name, s) => add a name s) start
    if names.length < items.length then throw .malformed
    close ending
    return all
  | s => .error (unfit s)

/-- A member that has to be there. In a list it has no name. -/
def need {α : Type} (name : String) (found : Option α) : Source → Except Mismatch α
  | .list .. => found.elim (.error .shape) .ok
  | _ => found.elim (.error (.missingField name)) .ok

/-! ### Nodes -/

def readTag : Source → Except Mismatch NodeKind
  | .text s => NodeKind.ofJson (.text s)
  | s => .error (unfit s)

/-- The members of a node: its kind from `type`, the others as values in order. -/
def readParts (levels : Nat) (kind : Option NodeKind) :
    List (Source × Source) → Except Mismatch (Option NodeKind × List (String × Json))
  | [] => .ok (kind, [])
  | (key, s) :: rest => do
    let name ← readName key
    if name = "type" then
      if kind.isSome then throw (.duplicateField "type")
      readParts levels (some (← readTag s)) rest
    else
      let j ← readValue levels s
      let (kind, members) ← readParts levels kind rest
      return (kind, (name, j) :: members)

/-- A node whose values may nest `levels` deep. -/
def readNode (levels : Nat) : Source → Except Mismatch Node
  | .object members ending => do
    let (kind, members) ← readParts levels none members
    close ending
    match kind with
    | some kind => (← Draft.ofMembers kind [] members).toNode kind
    | none => throw (.missingField "type")
  | .list [] _ => .error (.missingField "type")
  | .list (tag :: items) ending => do
    let kind ← readTag tag
    let items ← items.mapM (readValue levels)
    close ending
    (← Draft.ofItems [] kind.fields items).toUnnamedNode kind
  | s => .error (unfit s)

/-! ### Templates

A text may nest `levels` deep. A node in a template stands five lists and objects deep, a node of
the schema itself three.
-/

/-- The parts of a template as far as they were read. -/
structure TemplateDraft where
  parameters : Option (List String)
  spec : Option (List Node)

def TemplateDraft.add (levels : Nat) (d : TemplateDraft) (key : String) (s : Source) :
    Except Mismatch TemplateDraft :=
  match key with
  | "params" =>
    if d.parameters.isSome then .error (.duplicateField key)
    else do return { d with parameters := some (← readItems readText s) }
  | "spec" =>
    if d.spec.isSome then .error (.duplicateField key)
    else do return { d with spec := some (← readItems (readNode (levels - 5)) s) }
  | _ => do
    ignore s
    return d

def readTemplate (levels : Nat) (s : Source) : Except Mismatch Template := do
  let d ← readMembers ["params", "spec"] (TemplateDraft.add levels) ⟨none, none⟩ s
  return ⟨d.parameters.getD [], ← need "spec" d.spec s⟩

/-- Of two templates with one name the last one counts. -/
def readTemplates (levels : Nat) : Source → Except Mismatch (List (String × Template))
  | .object members ending => do
    let all ← members.foldlM (fun all (key, s) => do
      let name ← readName key
      return Table.insert all name (← readTemplate levels s)) []
    close ending
    return all
  | s => .error (unfit s)

/-! ### The whole -/

/-- The parts of a schema as far as they were read. -/
structure SchemaDraft where
  byteOrder : Option ByteOrder
  templates : Option (List (String × Template))
  spec : Option (List Node)

def SchemaDraft.add (levels : Nat) (d : SchemaDraft) (key : String) (s : Source) :
    Except Mismatch SchemaDraft :=
  match key with
  | "byte_order" | "byteOrder" =>
    if d.byteOrder.isSome then .error (.duplicateField "byte_order")
    else do return { d with byteOrder := some (← readOrder s) }
  | "templates" =>
    if d.templates.isSome then .error (.duplicateField key)
    else do return { d with templates := some (← readTemplates levels s) }
  | "spec" =>
    if d.spec.isSome then .error (.duplicateField key)
    else do return { d with spec := some (← readItems (readNode (levels - 3)) s) }
  | _ => do
    ignore s
    return d

def ofSource (levels : Nat) (s : Source) : Except Mismatch Schema := do
  let d ← readMembers ["byte_order", "templates", "spec"] (SchemaDraft.add levels)
    ⟨none, none, none⟩ s
  return ⟨d.byteOrder.getD .little, d.templates.getD [], ← need "spec" d.spec s⟩

/-- How deep lists and objects may nest in a schema text. -/
def maxLevels : Nat := 127

/-- The schema that a text holds. Nothing but space may follow it. -/
def parse (text : String) : Except Error Schema :=
  let (source, ended) := Source.read text
  match ofSource maxLevels source with
  | .ok schema => if ended then .ok schema else .error (.schemaParse .malformed)
  | .error mismatch => .error (.schemaParse mismatch)

end Schema

end ByteSchema
