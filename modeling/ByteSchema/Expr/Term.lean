import ByteSchema.Expr.Operator

/-!
# Terms of the expression language

A term computes a length, a count, a condition or an argument from what has been decoded so far.
-/

namespace ByteSchema

inductive Term where
  | ref (path : String)
  | uint (n : UInt64)
  | text (s : String)
  | bool (b : Bool)
  | op (op : Operator)
  /-- Operands and operators in turn, reduced from left to right. -/
  | expr (terms : List Term)
  /-- The first child names the function, the others are its arguments. -/
  | call (children : List Term)
  /-- The first case equal to the condition selects the result. -/
  | select (condition : Term) (cases : List (Term × Term))

namespace Term

def operator? : Term → Option Operator
  | op o => some o
  | _ => none

/-- A function named outright, by a reference or a text; another term computes the name. -/
def calleeName? : Term → Option String
  | ref name | text name => some name
  | _ => none

end Term

end ByteSchema
