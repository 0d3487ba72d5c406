import ByteSchema.Value.Path

/-!
# Records under construction

Fields are written to the innermost open scope, or to the root when none is open. A path is looked
up in the open scopes from the inside out, then in the arguments of the innermost template call
alone, then in the root.
-/

namespace ByteSchema

structure Scopes where
  root : Record
  /-- The open records, the innermost first. -/
  inner : List Record
  /-- The arguments of the template calls under way, the innermost first. -/
  frames : List Record

namespace Scopes

def empty : Scopes := ⟨.empty, [], []⟩

/-- The record that fields are written to. -/
def target (s : Scopes) : Record :=
  match s.inner with
  | r :: _ => r
  | [] => s.root

def mapTarget (s : Scopes) (f : Record → Record) : Scopes :=
  match s.inner with
  | r :: rest => { s with inner := f r :: rest }
  | [] => { s with root := f s.root }

def write (s : Scopes) (id : String) (value : Value) : Scopes :=
  s.mapTarget fun r => r.insert id value

def push (s : Scopes) : Scopes := { s with inner := .empty :: s.inner }

def pop? (s : Scopes) : Option (Record × Scopes) :=
  match s.inner with
  | r :: rest => some (r, { s with inner := rest })
  | [] => none

def pushFrame (s : Scopes) (frame : Record) : Scopes := { s with frames := frame :: s.frames }

def popFrame? (s : Scopes) : Option Scopes :=
  match s.frames with
  | _ :: rest => some { s with frames := rest }
  | [] => none

/-- Writes to the first of the records that has `id`. -/
def assignIn? (id : String) (value : Value) : List Record → Option (List Record)
  | [] => none
  | r :: rest =>
    if r.contains id then some (r.insert id value :: rest)
    else (assignIn? id value rest).map (r :: ·)

/-- Writes to the innermost record that has `id`, or to the target when none has. -/
def assign (s : Scopes) (id : String) (value : Value) : Scopes :=
  match assignIn? id value s.inner with
  | some inner => { s with inner := inner }
  | none =>
    if s.root.contains id then { s with root := s.root.insert id value } else s.write id value

/-- The records that a path is looked up in, in this order. -/
def visible (s : Scopes) : List Record := s.inner ++ s.frames.take 1 ++ [s.root]

/-- The value at a path. `$` is the target itself, and `$.` starts a path in it. -/
def resolve (s : Scopes) (path : String) : Value :=
  match path.toList with
  | ['$'] => .record s.target
  | '$' :: '.' :: rest => (s.target.getPath (String.ofList rest)).getD .undefined
  | _ => (s.visible.findSome? fun r => r.getPath path).getD .undefined

end Scopes

end ByteSchema
