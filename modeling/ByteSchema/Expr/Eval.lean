import ByteSchema.Event
import ByteSchema.Expr.Functions
import ByteSchema.Expr.Term

/-!
# Evaluation of terms

`evaluate` runs over the log of the decode, so that what was reported before an error is kept. An
expression is reduced strictly from left to right, one operator and one operand at a time.
-/

namespace ByteSchema

/-- A computation that reports to a log and may fail. -/
abbrev Eval := EStateM Error Log

/-- All that an evaluation needs besides the term. -/
structure Env where
  /-- The value at a path, `undefined` where there is none. -/
  resolve : String → Value
  functions : Registry
  /-- Whether a call of an unknown name is an error. -/
  strict : Bool
  /-- The offset to report. -/
  offset : Nat

namespace Eval

/-- A result that no log has a part in. -/
def ofExcept : Except Error Value → Eval Value
  | .ok v => pure v
  | .error e => throw e

def report (event : Event) : Eval Unit := modify fun log => event :: log

end Eval

namespace Env

/-- The value of a call once its name and its arguments are known. -/
def call (env : Env) (name : String) (arguments : List Value) : Eval Value :=
  match env.functions.get? name with
  | some f => Eval.ofExcept (f arguments)
  | none =>
    if env.strict then throw (.unknownFunction name)
    else do
      Eval.report (.diagnostic (.unknownFunction name env.offset))
      return .undefined

end Env

mutual

def evaluate (env : Env) : Term → Eval Value
  | .ref path => pure (env.resolve path)
  | .uint n => pure (.ofNat n.toNat)
  | .text s => pure (.text s)
  | .bool b => pure (.bool b)
  | .op op => throw (.eval (.strayOperator op))
  | .expr terms => evaluateExpr env terms
  | .call children => evaluateCall env children
  | .select condition cases => do select env (← evaluate env condition) cases

/-- The value of the first operand, with the operators after it applied. -/
def evaluateExpr (env : Env) : List Term → Eval Value
  | [] => pure .undefined
  | term :: rest =>
    match term.operator? with
    | some op => throw (.eval (.leadingOperator op))
    | none => do reduce env (← evaluate env term) rest

/-- Applies the operators of `terms` to the value so far. -/
def reduce (env : Env) (acc : Value) : List Term → Eval Value
  | [] => pure acc
  | head :: tail =>
    match head.operator?, tail with
    | none, _ => throw (.eval .missingOperator)
    | some op, [] => throw (.eval (.missingOperand op))
    | some op, term :: rest =>
      if term.operator?.isSome then throw (.eval (.missingOperand op))
      else do
        let rhs ← evaluate env term
        reduce env (← Eval.ofExcept (op.apply acc rhs)) rest

def evaluateCall (env : Env) : List Term → Eval Value
  | [] => throw (.eval .unnamedCall)
  | callee :: arguments => do
    let name ← match callee.calleeName? with
      | some name => pure name
      | none => do pure (← evaluate env callee).display
    env.call name (← evaluateAll env arguments)

def evaluateAll (env : Env) : List Term → Eval (List Value)
  | [] => pure []
  | term :: rest => do
    let v ← evaluate env term
    return v :: (← evaluateAll env rest)

/-- The result of the first case that loosely equals `value`. -/
def select (env : Env) (value : Value) : List (Term × Term) → Eval Value
  | [] => throw (.noMatch value.display)
  | (literal, result) :: rest => do
    if value.looseEq (← evaluate env literal) then evaluate env result
    else select env value rest

end

/-- References into a record alone; `$.` at the front of a path says nothing more. -/
def Record.resolve (r : Record) (path : String) : Value :=
  let inner := match path.toList with
    | '$' :: '.' :: rest => String.ofList rest
    | _ => path
  (r.getPath inner).getD .undefined

end ByteSchema
