import ByteSchema.Expr.Reader
import ByteSchema.Schema.Kind

/-!
# Nodes from JSON

`Node.ofJson` reads the fields of a node in the order of the text, and stops at the first that is
there twice or does not fit; only then it asks for the fields that are missing. A list stands for
the tag and the fields in the order of `NodeKind.fields`.
-/

namespace ByteSchema

namespace Content

/-! ### Contents without nodes -/

def readText : Json → Except Mismatch String
  | .text s => .ok s
  | _ => .error .shape

def readOptionalText : Json → Except Mismatch (Option String)
  | .null => .ok none
  | j => do return some (← readText j)

def readTerm (j : Json) : Except Mismatch Term :=
  match Term.ofJson false j with
  | .ok t => .ok t
  | .error fault => .error (.term fault)

def readOptionalTerm : Json → Except Mismatch (Option Term)
  | .null => .ok none
  | j => do return some (← readTerm j)

def readByte : Json → Except Mismatch UInt8
  | .number (.natural n) => if n < 256 then .ok n.toUInt8 else .error .shape
  | _ => .error .shape

def readItems {α : Type} (read : Json → Except Mismatch α) : Json → Except Mismatch (List α)
  | .list items => items.mapM read
  | _ => .error .shape

def readRange : Json → Except Mismatch (UInt8 × UInt8)
  | .list [low, high] => do return (← readByte low, ← readByte high)
  | _ => .error .shape

/-- A choice without data: its name, or an object that gives the name nothing. -/
def readChoice {α : Type} (ofName? : String → Option α) : Json → Except Mismatch α
  | .text name => choose name
  | .object [(name, .null)] => choose name
  | .object [(name, .object [])] => choose name
  | .object [(name, _)] => do
    let _ ← choose name
    throw .shape
  | _ => .error .shape
where
  choose (name : String) : Except Mismatch α :=
    match ofName? name with
    | some a => .ok a
    | none => .error (.unknownVariant name)

def orderOfName? (name : String) : Option ByteOrder :=
  match name with
  | "little" | "le" => some .little
  | "big" | "be" => some .big
  | _ => none

def bitKindOfName? (name : String) : Option BitKind :=
  match name with
  | "uint" => some .uint
  | "boolean" => some .boolean
  | _ => none

/-- A place that is counted from, where a text may name one of two. -/
def readBasis : Json → Except Mismatch Basis
  | .text "scope" => .ok .scope
  | .text "global" => .ok .global
  | j => do return .term (← readTerm j)

/-- Whatever is wrong with an argument, the whole has another shape. -/
def readArguments (j : Json) : Except Mismatch Arguments :=
  let terms : Except TermFault Arguments := match j with
    | .list items => do return .positional (← items.mapM (Term.ofJson false))
    | .object members => do
      let terms ← members.mapM fun (name, j) => do return (name, ← Term.ofJson false j)
      return .named (terms.foldl (fun all (name, term) => Table.insert all name term) [])
    | _ => .error .null
  match terms with
  | .ok arguments => .ok arguments
  | .error _ => .error .shape

/-! ### Bits -/

/-- The members of a bit field as far as they were read. -/
structure BitDraft where
  id : Option (Option String)
  kind : Option BitKind
  bits : Option UInt8

/-- One more member of a bit field. -/
def BitDraft.add (d : BitDraft) (key : String) (j : Json) : Except Mismatch BitDraft :=
  match key with
  | "id" =>
    if d.id.isSome then .error (.duplicateField key)
    else do return { d with id := some (← readOptionalText j) }
  | "type" =>
    if d.kind.isSome then .error (.duplicateField key)
    else do return { d with kind := some (← readChoice bitKindOfName? j) }
  | "bits" =>
    if d.bits.isSome then .error (.duplicateField key)
    else do return { d with bits := some (← readByte j) }
  | _ => .ok d

def BitDraft.addAll (members : List (String × Json)) : Except Mismatch BitDraft :=
  members.foldlM (fun d (key, j) => d.add key j) ⟨none, none, none⟩

/-- The field of a draft; without its bits there is none. -/
def BitDraft.toField (d : BitDraft) (missing : Mismatch) : Except Mismatch BitField :=
  match d.bits with
  | some bits => .ok ⟨d.id.getD none, d.kind.getD .uint, bits⟩
  | none => .error missing

/-- A bit field. A list stands for the members in their order, without their names. -/
def readBitField : Json → Except Mismatch BitField
  | .object members => do (← BitDraft.addAll members).toField (.missingField "bits")
  | .list items => do
    let d ← BitDraft.addAll (["id", "type", "bits"].zip items)
    if 3 < items.length then throw .shape
    d.toField .shape
  | _ => .error .shape

end Content

namespace NodeKind

/-- The kind that a tag or a number stands for. -/
def ofJson : Json → Except Mismatch NodeKind
  | .text s =>
    match ofTag? s with
    | some kind => .ok kind
    | none => .error (.unknownVariant s)
  | .number (.natural n) =>
    match all[n.toNat]? with
    | some kind => .ok kind
    | none => .error .shape
  | _ => .error .shape

/-- The kind that the one member `type` gives; `found` is a kind given before. -/
def ofMembers (found : Option NodeKind) : List (String × Json) → Except Mismatch NodeKind
  | [] =>
    match found with
    | some kind => .ok kind
    | none => .error (.missingField "type")
  | (key, j) :: rest =>
    if key = "type" then
      if found.isSome then .error (.duplicateField "type")
      else do ofMembers (some (← ofJson j)) rest
    else ofMembers found rest

end NodeKind

/-! ### Nodes -/

mutual

def Node.ofJson : Json → Except Mismatch Node
  | .object members => do
    let kind ← NodeKind.ofMembers none members
    (← Draft.ofMembers kind [] members).toNode kind
  | .list [] => .error (.missingField "type")
  | .list (tag :: items) => do
    let kind ← NodeKind.ofJson tag
    (← Draft.ofItems [] kind.fields items).toUnnamedNode kind
  | _ => .error .shape

/-- The fields among the members of a node; a key that names none is passed over. -/
def Draft.ofMembers (kind : NodeKind) (draft : Draft) :
    List (String × Json) → Except Mismatch Draft
  | [] => .ok draft
  | (key, j) :: rest =>
    match kind.field? key with
    | none => Draft.ofMembers kind draft rest
    | some f =>
      if (draft.get? f).isSome then .error (.duplicateField f.name)
      else do
        let content ← Field.readContent f j
        Draft.ofMembers kind (⟨f, content⟩ :: draft) rest

/-- The fields of a node in their order, without their names. -/
def Draft.ofItems (draft : Draft) : List Field → List Json → Except Mismatch Draft
  | _, [] => .ok draft
  | [], _ :: _ => .error .shape
  | f :: fields, j :: rest => do
    let content ← Field.readContent f j
    Draft.ofItems (⟨f, content⟩ :: draft) fields rest

def Field.readContent (f : Field) (j : Json) : Except Mismatch f.Content :=
  match f with
  | .id | .message => Content.readText j
  | .optionalId => Content.readOptionalText j
  | .length | .window | .ref | .condition | .on | .multiple | .expr => Content.readTerm j
  | .count | .stopWhen | .readUntil | .emitWhen | .maxLen => Content.readOptionalTerm j
  | .bits => Content.readItems Content.readBitField j
  | .items | .spec | .otherwise =>
    match j with
    | .list items => Node.readAll items
    | _ => .error .shape
  | .cases =>
    match j with
    | .object members => Node.readCases members
    | _ => .error .shape
  | .default =>
    match j with
    | .null => .ok none
    | .list items => do return some (← Node.readAll items)
    | _ => .error .shape
  | .params => Content.readArguments j
  | .basis => Content.readBasis j
  | .byteOrder => Content.readChoice Content.orderOfName? j
  | .terminators | .seq | .values => Content.readItems Content.readByte j
  | .marker => Content.readByte j
  | .ranges => Content.readItems Content.readRange j

def Node.readBlock : Json → Except Mismatch (List Node)
  | .list items => Node.readAll items
  | _ => .error .shape

def Node.readAll : List Json → Except Mismatch (List Node)
  | [] => .ok []
  | item :: items => do
    let node ← Node.ofJson item
    return node :: (← Node.readAll items)

/-- The blocks of a switch. Of two with one key the last one counts. -/
def Node.readCases : List (String × Json) → Except Mismatch (List (String × List Node))
  | [] => .ok []
  | (key, j) :: rest => do
    let nodes ← Node.readBlock j
    let later ← Node.readCases rest
    return if (later.lookup key).isSome then later else (key, nodes) :: later

end

end ByteSchema
