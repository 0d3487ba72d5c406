import ByteSchema.Decode.Cursor
import ByteSchema.Decode.Scopes
import ByteSchema.Expr.Eval
import ByteSchema.Schema.Basic

/-!
# The state of a decode

A `Run` changes the state and may halt. The state at a halt is kept, so the log shows what was
reported before.
-/

namespace ByteSchema

structure Config where
  /-- How deep blocks may nest; 0 is no limit. -/
  maxDepth : Nat
  strictFunctions : Bool
  /-- Used in place of the order that the schema names. -/
  byteOrder : Option ByteOrder

def Config.default : Config := ⟨0, false, none⟩

/-- The part of the input that belongs to an open `bounded` node. -/
structure Region where
  start : Nat
  stop : Nat

structure State where
  cursor : Cursor
  scopes : Scopes
  /-- The open regions, the innermost first. -/
  regions : List Region
  depth : Nat
  log : Log

/-- Why a run ends before its time. -/
inductive Halt where
  | failed (e : Error)
  /-- A position is past the largest word. This is no error to report: the program breaks off. -/
  | overflow
  /-- Templates call each other deeper, or a loop goes round more often, than the run allows for. -/
  | exhausted

abbrev Run := EStateM Halt State

/-- What stays the same throughout a decode. -/
structure Setting where
  schema : Schema
  config : Config
  functions : Registry

namespace Run

def fail {α : Type} (e : Error) : Run α := throw (.failed e)

def ofExcept {α : Type} : Except Error α → Run α
  | .ok a => pure a
  | .error e => fail e

/-- A result of unchecked arithmetic, which is none where it does not fit a word. -/
def checked : Option Nat → Run Nat
  | some n => pure n
  | none => throw .overflow

def log (event : Event) : Run Unit := modify fun s => { s with log := event :: s.log }

def report (d : Diagnostic) : Run Unit := log (.diagnostic d)

/-! ### The cursor -/

def cursor : Run Cursor := do return (← get).cursor

def offset : Run Nat := do return (← cursor).offset

def setCursor (c : Cursor) : Run Unit := modify fun s => { s with cursor := c }

/-- A read that may fail, and moves the cursor when it does not. -/
def read {α : Type} (f : Cursor → Except Error (α × Cursor)) : Run α := do
  let (a, next) ← ofExcept (f (← cursor))
  setCursor next
  return a

def setOrder (order : ByteOrder) : Run Unit :=
  modify fun s => { s with cursor := { s.cursor with order := order } }

/-! ### The records -/

def mapScopes (f : Scopes → Scopes) : Run Unit := modify fun s => { s with scopes := f s.scopes }

def write (id : String) (value : Value) : Run Unit := mapScopes fun s => s.write id value

/-- Closes the innermost scope and gives its record. -/
def popScope : Run Record := do
  match (← get).scopes.pop? with
  | some (r, scopes) =>
    mapScopes fun _ => scopes
    return r
  | none => fail (.internal "scope stack underflow")

def popFrame : Run Unit := do
  match (← get).scopes.popFrame? with
  | some scopes => mapScopes fun _ => scopes
  | none => fail (.internal "parameter stack underflow")

/-! ### Terms -/

/-- What terms see of the state. -/
def env (setting : Setting) (s : State) : Env where
  resolve := s.scopes.resolve
  functions := setting.functions
  strict := setting.config.strictFunctions
  offset := s.cursor.offset

def eval (setting : Setting) (term : Term) : Run Value := fun s =>
  match evaluate (env setting s) term s.log with
  | .ok v log => .ok v { s with log := log }
  | .error e log => .error (.failed e) { s with log := log }

def evalNumber (setting : Setting) (term : Term) : Run Value := do
  ofExcept (← eval setting term).toNumber

def evalLength (setting : Setting) (term : Term) : Run Nat := do
  ofExcept (← eval setting term).toLength

def evalTruth (setting : Setting) (term : Term) : Run Bool := do
  return (← eval setting term).isTruthy

def evalLimit (setting : Setting) : Option Term → Run (Option Nat)
  | some term => do return some (← evalLength setting term)
  | none => pure none

end Run

end ByteSchema
