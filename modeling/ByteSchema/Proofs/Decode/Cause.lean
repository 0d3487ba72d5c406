import ByteSchema.Proofs.Decode.Ends
import ByteSchema.Proofs.Value.Record

/-!
# Causes of errors

`TermCause` lists why a term cannot be evaluated, `Cause` why a decode fails. `evaluate_raises` says
that terms fail for no other reason, `builtins_fails` what the functions on lists fail with.
-/

namespace ByteSchema

/-- Why a term cannot be evaluated. -/
inductive TermCause (functions : Registry) (strict : Bool) : Error → Prop where
  | eval (fault : EvalFault) : TermCause functions strict (.eval fault)
  | noMatch (value : String) : TermCause functions strict (.noMatch value)
  | coercion (value expected : String) : TermCause functions strict (.coercion value expected)
  | unknownFunction {name : String} : strict = true → functions.get? name = none →
      TermCause functions strict (.unknownFunction name)
  /-- A registered function gave the error itself. -/
  | function {name : String} {f : Function} {arguments : List Value} {e : Error} :
      functions.get? name = some f → f arguments = .error e → TermCause functions strict e

/-- Why a decode of `data` fails. -/
inductive Cause (setting : Setting) (data : List UInt8) : Error → Prop where
  | term {e : Error} : TermCause setting.functions setting.config.strictFunctions e →
      Cause setting data e
  | invalidLength (value : Float) : Cause setting data (.invalidLength value)
  | invalidSchema (fault : SchemaFault) : Cause setting data (.invalidSchema fault)
  | unexpectedEof {offset requested available : Nat} : offset + available = data.length →
      available < requested → Cause setting data (.unexpectedEof offset requested available)
  | invalidVint {offset : Nat} : data[offset]? = some 0 → Cause setting data (.invalidVint offset 0)
  | unknownTemplate {name : String} : setting.schema.templates.lookup name = none →
      Cause setting data (.unknownTemplate name)
  | assertionFailed (message : String) {offset : Nat} : offset ≤ data.length →
      Cause setting data (.assertionFailed message offset)
  | depthExceeded : 0 < setting.config.maxDepth →
      Cause setting data (.depthExceeded setting.config.maxDepth)

theorem Cause.of_internal {setting : Setting} {data : List UInt8} {message : String}
    (h : Cause setting data (.internal message)) : ∃ name f arguments,
      setting.functions.get? name = some f ∧ f arguments = .error (.internal message) := by
  cases h with
  | term h =>
    cases h with
    | function hget hf => exact ⟨_, _, _, hget, hf⟩

/-! ### Results -/

/-- Every error of `x` is one of `causes`. -/
def Fails {α : Type} (causes : Error → Prop) (x : Except Error α) : Prop :=
  ∀ e, x = .error e → causes e

namespace Fails

variable {α β : Type} {causes : Error → Prop}

theorem ok {a : α} : Fails causes (.ok a) := by
  intro e h
  cases h

theorem error {e : Error} (h : causes e) : Fails causes (.error e : Except Error α) := by
  rintro _ ⟨⟩
  exact h

theorem bind {x : Except Error β} {f : β → Except Error α} (hx : Fails causes x)
    (hf : ∀ b, x = .ok b → Fails causes (f b)) : Fails causes (x >>= f) := by
  cases x with
  | error e => exact .error (hx e rfl)
  | ok b => exact hf b rfl

theorem imp {causes' : Error → Prop} {x : Except Error α} (hx : Fails causes x)
    (h : ∀ e, causes e → causes' e) : Fails causes' x :=
  fun e he => h e (hx e he)

end Fails

/-! ### Values as numbers -/

/-- The error of a value that is no number. -/
def IsCoercion (e : Error) : Prop := ∃ value expected, e = .coercion value expected

/-- The error of a value or of a number in the schema that does not do for its use. -/
inductive IsMistake : Error → Prop where
  | coercion (value expected : String) : IsMistake (.coercion value expected)
  | invalidLength (value : Float) : IsMistake (.invalidLength value)
  | invalidSchema (fault : SchemaFault) : IsMistake (.invalidSchema fault)

theorem IsCoercion.isMistake {e : Error} (h : IsCoercion e) : IsMistake e := by
  obtain ⟨value, expected, rfl⟩ := h
  exact .coercion value expected

theorem IsMistake.cause {setting : Setting} {data : List UInt8} {e : Error} (h : IsMistake e) :
    Cause setting data e := by
  cases h with
  | coercion value expected => exact .term (.coercion value expected)
  | invalidLength value => exact .invalidLength value
  | invalidSchema fault => exact .invalidSchema fault

theorem Value.toNumber_fails (v : Value) : Fails IsCoercion v.toNumber := by
  cases v with
  | bool b | int n | float x => exact .ok
  | text s =>
    simp only [Value.toNumber]
    split
    · exact .ok
    · exact .error ⟨_, _, rfl⟩
  | undefined | bytes _ | list _ | record _ => exact .error ⟨_, _, rfl⟩

theorem Value.toFloat_fails (v : Value) : Fails IsCoercion v.toFloat := by
  refine v.toNumber_fails.bind fun n _ => ?_
  cases n with
  | int _ | float _ => exact .ok
  | _ => exact .error ⟨_, _, rfl⟩

theorem Value.toLength_fails (v : Value) : Fails IsMistake v.toLength := by
  refine (v.toNumber_fails.imp fun _ => IsCoercion.isMistake).bind fun n _ => ?_
  cases n with
  | int _ | float _ =>
    dsimp only
    split
    · exact .ok
    · exact .error (.invalidLength _)
  | _ => exact .error (.coercion _ _)

namespace Operator

theorem arithmetic_fails (onInts : Int → Int → Option Int64) (onFloats : Float → Float → Float)
    (lhs rhs : Value) : Fails IsCoercion (arithmetic onInts onFloats lhs rhs) := by
  refine lhs.toNumber_fails.bind fun a _ => rhs.toNumber_fails.bind fun b _ => ?_
  split
  · split <;> exact .ok
  · exact a.toFloat_fails.bind fun _ _ => b.toFloat_fails.bind fun _ _ => .ok

theorem toBits_fails (v : Value) : Fails IsCoercion (toBits v) := by
  refine v.toNumber_fails.bind fun n _ => ?_
  split
  · exact .ok
  · exact (Value.toFloat_fails _).bind fun _ _ => .ok

theorem toShift_fails (v : Value) : Fails IsCoercion (toShift v) :=
  (toBits_fails v).bind fun _ _ => .ok

theorem apply_fails (op : Operator) (lhs rhs : Value) : Fails IsCoercion (op.apply lhs rhs) := by
  cases op with
  | add =>
    simp only [apply]
    split
    · exact .ok
    · exact arithmetic_fails _ _ lhs rhs
  | sub | mul | div | rem | pow =>
    simp only [apply]
    exact arithmetic_fails _ _ lhs rhs
  | bitAnd | bitOr => exact (toBits_fails lhs).bind fun _ _ => (toBits_fails rhs).bind fun _ _ => .ok
  | shl | shr => exact (toBits_fails lhs).bind fun _ _ => (toShift_fails rhs).bind fun _ _ => .ok
  | eq | ne | gt | ge | lt | le | and | or | access => exact .ok

end Operator

/-! ### Functions on lists -/

/-- The errors of the functions that every registry starts with. -/
def IsComplaint (e : Error) : Prop := IsCoercion e ∨ ∃ name message, e = .function name message

namespace Function

theorem addTerm_fails (total term : Value) : Fails IsCoercion (addTerm total term) := by
  unfold addTerm
  split
  · exact .ok
  · exact (Value.toNumber_fails _).bind fun v _ => Operator.apply_fails .add total v

theorem sumTerms_fails (terms : List Value) (total : Value) :
    Fails IsCoercion (sumTerms total terms) := by
  induction terms generalizing total with
  | nil => exact .ok
  | cons term rest ih => exact (addTerm_fails total term).bind fun next _ => ih next

theorem listSum_fails (arguments : List Value) : Fails IsComplaint (listSum arguments) := by
  unfold listSum
  split
  · exact .ok
  · exact .ok
  · exact (sumTerms_fails _ _).imp fun _ => .inl
  · exact .ok
  · exact .error (.inr ⟨_, _, rfl⟩)

theorem listLength_fails (arguments : List Value) : Fails IsComplaint (listLength arguments) := by
  unfold listLength
  split
  · exact .ok
  · exact .ok
  · split
    · exact .ok
    · exact .error (.inr ⟨_, _, rfl⟩)

end Function

theorem Registry.builtins_fails {name : String} {f : Function}
    (h : Registry.builtins.get? name = some f) (arguments : List Value) :
    Fails IsComplaint (f arguments) := by
  have listed : (name, f) ∈ Registry.builtins := Table.mem_of_lookup h
  have cases : f = Function.listSum ∨ f = Function.listLength := by
    simp only [Registry.builtins, List.mem_cons, Prod.mk.injEq, List.not_mem_nil, or_false] at listed
    obtain ⟨-, rfl⟩ | ⟨-, rfl⟩ | ⟨-, rfl⟩ := listed
    · exact .inl rfl
    · exact .inr rfl
    · exact .inr rfl
  obtain rfl | rfl := cases
  · exact Function.listSum_fails arguments
  · exact Function.listLength_fails arguments

/-! ### Terms -/

/-- Every error of `m` is one of `causes`, whatever the log. -/
def Raises {α : Type} (causes : Error → Prop) (m : Eval α) : Prop :=
  ∀ log, Ends m log (fun _ _ => True) fun e _ => causes e

namespace Raises

variable {α β : Type} {causes : Error → Prop}

theorem pure {a : α} : Raises causes (pure a) := fun _ => trivial

theorem throw {e : Error} (h : causes e) : Raises causes (throw e : Eval α) := fun _ => h

theorem bind {m : Eval β} {f : β → Eval α} (hm : Raises causes m)
    (hf : ∀ b, Raises causes (f b)) : Raises causes (m >>= f) :=
  fun log => ends_bind.mpr ((hm log).imp_done fun b t _ => hf b t)

theorem ofExcept {x : Except Error Value} (h : Fails causes x) :
    Raises causes (Eval.ofExcept x) := by
  cases x with
  | ok v => exact .pure
  | error e => exact .throw (h e rfl)

end Raises

theorem Env.call_raises (env : Env) (name : String) (arguments : List Value) :
    Raises (TermCause env.functions env.strict) (env.call name arguments) := by
  unfold Env.call
  split
  · next f hget => exact .ofExcept fun e he => .function hget he
  · next hget =>
    split
    · next hstrict => exact .throw (.unknownFunction hstrict hget)
    · exact fun _ => trivial

mutual

theorem evaluate_raises (env : Env) : (term : Term) →
    Raises (TermCause env.functions env.strict) (evaluate env term)
  | .ref _ | .uint _ | .text _ | .bool _ => .pure
  | .op _ => .throw (.eval _)
  | .expr terms => evaluateExpr_raises env terms
  | .call children => evaluateCall_raises env children
  | .select condition cases =>
    (evaluate_raises env condition).bind fun v => select_raises env v cases

theorem evaluateExpr_raises (env : Env) : (terms : List Term) →
    Raises (TermCause env.functions env.strict) (evaluateExpr env terms)
  | [] => .pure
  | term :: rest => by
    unfold evaluateExpr
    split
    · exact .throw (.eval _)
    · exact (evaluate_raises env term).bind fun v => reduce_raises env v rest

theorem reduce_raises (env : Env) (acc : Value) : (terms : List Term) →
    Raises (TermCause env.functions env.strict) (reduce env acc terms)
  | [] => .pure
  | [head] => by
    unfold reduce
    cases head.operator? with
    | none | some _ => exact .throw (TermCause.eval _)
  | head :: term :: rest => by
    unfold reduce
    cases head.operator? with
    | none => exact .throw (.eval _)
    | some op =>
      dsimp only
      split
      · exact .throw (.eval _)
      · have apply_raises (v : Value) :
            Raises (TermCause env.functions env.strict) (Eval.ofExcept (op.apply acc v)) := by
          refine .ofExcept ((op.apply_fails acc v).imp ?_)
          rintro _ ⟨value, expected, rfl⟩
          exact .coercion value expected
        exact (evaluate_raises env term).bind fun v =>
          (apply_raises v).bind fun acc => reduce_raises env acc rest

theorem evaluateCall_raises (env : Env) : (children : List Term) →
    Raises (TermCause env.functions env.strict) (evaluateCall env children)
  | [] => .throw (.eval _)
  | callee :: arguments => by
    have named (name : String) : Raises (TermCause env.functions env.strict)
        (do env.call name (← evaluateAll env arguments)) :=
      (evaluateAll_raises env arguments).bind fun vs => env.call_raises name vs
    unfold evaluateCall
    split
    · exact named _
    · exact (evaluate_raises env callee).bind fun v => named v.display

theorem evaluateAll_raises (env : Env) : (terms : List Term) →
    Raises (TermCause env.functions env.strict) (evaluateAll env terms)
  | [] => .pure
  | term :: rest =>
    (evaluate_raises env term).bind fun _ => (evaluateAll_raises env rest).bind fun _ => .pure

theorem select_raises (env : Env) (value : Value) : (cases : List (Term × Term)) →
    Raises (TermCause env.functions env.strict) (select env value cases)
  | [] => .throw (.noMatch _)
  | (literal, result) :: rest => by
    unfold select
    refine (evaluate_raises env literal).bind fun v => ?_
    split
    · exact evaluate_raises env result
    · exact select_raises env value rest

end

end ByteSchema
