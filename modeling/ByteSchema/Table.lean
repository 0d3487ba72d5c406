/-!
# Tables

Keys with values in order of their first insertion. `List.lookup` reads a table.
-/

namespace ByteSchema.Table

/-- The value goes to the place of `key`, or to the end where the key is new. -/
def insert {κ α : Type} [DecidableEq κ] (table : List (κ × α)) (key : κ) (value : α) :
    List (κ × α) :=
  match table with
  | [] => [(key, value)]
  | (k, old) :: rest => if k = key then (k, value) :: rest else (k, old) :: insert rest key value

/-- The value at `key` gives way to `f` of it, where there is one. -/
def modify {κ α : Type} [DecidableEq κ] (table : List (κ × α)) (key : κ) (f : α → α) :
    List (κ × α) :=
  match table with
  | [] => []
  | (k, old) :: rest => if k = key then (k, f old) :: rest else (k, old) :: modify rest key f

end ByteSchema.Table
