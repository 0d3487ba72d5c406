import ByteSchema.Error
import ByteSchema.Expr.Term
import ByteSchema.Json.Printer

/-!
# Terms from JSON

Numbers, booleans, texts and lists stand for themselves, other terms are objects with one key. A
text is a reference, but inside a list a text that spells an operator is the operator. Of members
with one name the last one counts.
-/

namespace ByteSchema.Term

/-- A bare text: inside a list an operator if it spells one, else a reference. -/
def ofText (inside : Bool) (s : String) : Term :=
  match inside, Operator.ofSymbol? s with
  | true, some o => .op o
  | _, _ => .ref s

/-- How many different keys there are. -/
def keyCount : List (String × Json) → Nat
  | [] => 0
  | (key, _) :: rest => keyCount rest + if (rest.lookup key).isSome then 0 else 1

/-- A term that its key spells out as a text. -/
def ofTextForm (key s : String) : Except TermFault Term :=
  match key with
  | "ref" => .ok (.ref s)
  | "text" => .ok (.text s)
  | "op" =>
    match Operator.ofSymbol? s with
    | some o => .ok (.op o)
    | none => .error (.unknownOperator s)
  | "match" => .error .matchBody
  | _ => .error (.unsupportedForm key)

/-- The key says what the value, which is no text and no list, does not fit. -/
def noForm (key : String) : Except TermFault Term :=
  .error (if key = "match" then .matchBody else .unsupportedForm key)

mutual

def ofJson (inside : Bool) : Json → Except TermFault Term
  | .null => .error .null
  | .bool b => .ok (.bool b)
  | .number (.natural n) => .ok (.uint n)
  | .number n => .error (.numeral (String.ofList (Json.numberText n)))
  | .text s => .ok (ofText inside s)
  | .list items => do return .expr (← ofItems true items)
  | .object members =>
    if keyCount members = 1 then ofMembers members else .error (.keyCount (keyCount members))

def ofItems (inside : Bool) : List Json → Except TermFault (List Term)
  | [] => .ok []
  | item :: items => do
    let term ← ofJson inside item
    return term :: (← ofItems inside items)

/-- The term of the last member. -/
def ofMembers : List (String × Json) → Except TermFault Term
  | [] => .error (.keyCount 0)
  | [(key, value)] => ofMember key value
  | _ :: member :: rest => ofMembers (member :: rest)

def ofMember (key : String) : Json → Except TermFault Term
  | .text s => ofTextForm key s
  | .list items =>
    if key = "expr" then do return .expr (← ofItems true items)
    else if key = "call" then
      if items.isEmpty then .error .unnamedCall else do return .call (← ofItems false items)
    else noForm key
  | .object members =>
    if key = "match" then
      match (lastTerm "on" members).or (lastTerm "condition" members), lastCases members with
      | none, _ => .error .matchOn
      | some _, none => .error .matchCases
      | some condition, some cases => do
        let cases ← cases
        return .select (← condition) cases
    else noForm key
  | _ => noForm key

/-- The last member of a name as a term. -/
def lastTerm (name : String) : List (String × Json) → Option (Except TermFault Term)
  | [] => none
  | (key, value) :: rest =>
    if (rest.lookup name).isSome then lastTerm name rest
    else if key = name then some (ofJson false value)
    else none

/-- The last member named `cases`, if it is a list. -/
def lastCases : List (String × Json) → Option (Except TermFault (List (Term × Term)))
  | [] => none
  | (key, value) :: rest =>
    if (rest.lookup "cases").isSome then lastCases rest
    else if key = "cases" then ofCaseList value
    else none

def ofCaseList : Json → Option (Except TermFault (List (Term × Term)))
  | .list items => some (ofCases items)
  | _ => none

def ofCases : List Json → Except TermFault (List (Term × Term))
  | [] => .ok []
  | item :: items => do
    let found ← ofCase item
    return found :: (← ofCases items)

def ofCase : Json → Except TermFault (Term × Term)
  | .object members =>
    match lastTerm "when" members, lastTerm "then" members with
    | none, _ => .error .caseWhen
    | some _, none => .error .caseThen
    | some literal, some result => do return (← literal, ← result)
  | _ => .error .caseBody

end

/-- A term by itself. Whatever is wrong with it makes the schema invalid. -/
def read (inside : Bool) (j : Json) : Except Error Term :=
  match ofJson inside j with
  | .ok term => .ok term
  | .error fault => .error (.invalidSchema (.term fault))

end ByteSchema.Term
