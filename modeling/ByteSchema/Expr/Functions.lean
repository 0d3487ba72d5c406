import ByteSchema.Expr.Arithmetic
import ByteSchema.Text.Sorted

/-!
# Functions that terms may call

A `Registry` maps names to functions of any number of values. `Registry.builtins` holds the
functions on lists.
-/

namespace ByteSchema

abbrev Function := List Value → Except Error Value

/-- Names with their functions, each name once. -/
abbrev Registry := List (String × Function)

namespace Registry

def get? (r : Registry) (name : String) : Option Function := r.lookup name

def contains (r : Registry) (name : String) : Bool := (r.get? name).isSome

/-- A function registered before under the same name gives way. -/
def register (r : Registry) (name : String) (f : Function) : Registry := Table.insert r name f

/-- The names, sorted. -/
def names (r : Registry) : List String := Text.sorted (r.map Prod.fst)

end Registry

namespace Function

/-- Adds an item to a sum; an undefined one adds nothing. -/
def addTerm (total term : Value) : Except Error Value :=
  match term with
  | .undefined => .ok total
  | v => do Operator.add.apply total (← v.toNumber)

/-- The sum of the values. -/
def sumTerms : Value → List Value → Except Error Value
  | total, [] => .ok total
  | total, v :: vs => do sumTerms (← addTerm total v) vs

/-- What is summed for an item: the item, or the value at a path in it. -/
def summand (key : Option String) (item : Value) : Value :=
  match key with
  | some path => (item.getPath path).getD .undefined
  | none => item

/-- The path that the arguments after the list give. -/
def sumKey : List Value → Option String
  | [] | .undefined :: _ => none
  | v :: _ => some v.display

/-- The sum of a list, or of what a path selects in each of its items. -/
def listSum (arguments : List Value) : Except Error Value :=
  match arguments with
  | [] | .undefined :: _ => .ok (.int 0)
  | .list items :: rest => sumTerms (.int 0) (items.map (summand (sumKey rest)))
  | .bytes data :: _ => .ok (.int (Int64.ofNat (data.foldl (fun n b => n + b.toNat) 0)))
  | v :: _ => .error (.function "list::sum" ("expected a list, got " ++ v.typeName))

/-- The length of a list, of bytes or of a text. -/
def listLength (arguments : List Value) : Except Error Value :=
  match arguments with
  | [] | .undefined :: _ => .ok (.int 0)
  | v :: _ =>
    match v.length? with
    | some n => .ok (.int (Int64.ofNat n))
    | none => .error (.function "list::length" ("expected a list, got " ++ v.typeName))

end Function

/-- The names in a text for people. -/
def Registry.describe (r : Registry) : String :=
  "FunctionRegistry \x7b functions: [" ++ ", ".intercalate (r.names.map Text.quoted) ++ "] \x7d"

def Registry.builtins : Registry :=
  [("list::sum", Function.listSum), ("list::length", Function.listLength),
    ("list::size", Function.listLength)]

end ByteSchema
