/-!
# Binary operators

Each operator has one canonical spelling, `symbol`, and some have a second one; `ofSymbol?` reads
both.
-/

namespace ByteSchema

inductive Operator where
  | add | sub | mul | div | rem | pow
  | eq | ne | gt | ge | lt | le
  | and | or
  | bitAnd | bitOr | shl | shr
  | access
  deriving DecidableEq

namespace Operator

def symbol : Operator → String
  | add => "+"
  | sub => "-"
  | mul => "*"
  | div => "/"
  | rem => "%"
  | pow => "pow"
  | eq => "eq"
  | ne => "ne"
  | gt => "gt"
  | ge => "ge"
  | lt => "lt"
  | le => "le"
  | and => "and"
  | or => "or"
  | bitAnd => "&"
  | bitOr => "|"
  | shl => "<<"
  | shr => ">>"
  | access => "access"

def ofSymbol? (s : String) : Option Operator :=
  match s with
  | "+" => some add
  | "-" => some sub
  | "*" => some mul
  | "/" => some div
  | "%" => some rem
  | "pow" | "**" => some pow
  | "eq" | "==" => some eq
  | "ne" | "!=" => some ne
  | "gt" | ">" => some gt
  | "ge" | ">=" => some ge
  | "lt" | "<" => some lt
  | "le" | "<=" => some le
  | "and" | "&&" => some and
  | "or" | "||" => some or
  | "&" => some bitAnd
  | "|" => some bitOr
  | "<<" => some shl
  | ">>" => some shr
  | "access" | "." => some access
  | _ => none

theorem ofSymbol?_symbol (op : Operator) : ofSymbol? op.symbol = some op := by
  cases op <;> rfl

end Operator

end ByteSchema
