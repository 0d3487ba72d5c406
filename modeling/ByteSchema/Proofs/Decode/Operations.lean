import ByteSchema.Decode.Block
import ByteSchema.Proofs.Decode.Reads

/-!
# What passes from operations to actions

A property of programs is `Operational` when the operations that actions are made of have it, and
sequences pass it on. Three kinds of operations are left out, as few properties are true of them:
strict reads, assignments and unchecked arithmetic. `Operational.action` has the property of any
action, given these. `OperationalOn` asks this of some terms only, and then has the property of
actions with such terms.
-/

namespace ByteSchema

/-- `P` holds of what cannot lack input, and passes on to sequences. -/
structure Operational (setting : Setting) (P : (α : Type) → Run α → Prop) : Prop where
  pure {α : Type} (a : α) : P α (pure a)
  bind {α β : Type} {m : Run β} {f : β → Run α} : P β m → (∀ b, P α (f b)) → P α (m >>= f)
  get : P State get
  log (event : Event) : P Unit (Run.log event)
  eval (term : Term) : P Value (Run.eval setting term)
  ofExcept {α : Type} {x : Except Error α} : Fails IsMistake x → P α (Run.ofExcept x)
  assertionFailed (message : String) :
    P Unit (do Run.fail (.assertionFailed message (← Run.offset)))
  write (id : String) (value : Value) : P Unit (Run.write id value)
  merge (fields : Record) : P Unit (Run.mapScopes fun s => s.mapTarget fun r => r.merge fields)
  read {α : Type} {f : Cursor → Except Error (α × Cursor)} : Serves f → P α (Run.read f)

/-- As `Operational`, where only terms with `sees` are evaluated, and of the state only the cursor and
the open region are looked at. -/
structure OperationalOn (setting : Setting) (sees : Term → Prop)
    (P : (α : Type) → Run α → Prop) : Prop where
  pure {α : Type} (a : α) : P α (pure a)
  bind {α β : Type} {m : Run β} {f : β → Run α} : P β m → (∀ b, P α (f b)) → P α (m >>= f)
  cursor : P Cursor Run.cursor
  regionStart : P Nat (Action.basisOffset setting .scope)
  log (event : Event) : P Unit (Run.log event)
  eval {term : Term} : sees term → P Value (Run.eval setting term)
  ofExcept {α : Type} {x : Except Error α} : Fails IsMistake x → P α (Run.ofExcept x)
  assertionFailed (message : String) :
    P Unit (do Run.fail (.assertionFailed message (← Run.offset)))
  write (id : String) (value : Value) : P Unit (Run.write id value)
  merge (fields : Record) : P Unit (Run.mapScopes fun s => s.mapTarget fun r => r.merge fields)
  read {α : Type} {f : Cursor → Except Error (α × Cursor)} : Serves f → P α (Run.read f)

def Basis.terms : Basis → List Term
  | scope | global => []
  | term t => [t]

def Action.terms : Action → List Term
  | uint _ term | int _ term | ascii _ term | bytes _ term | bytesLenient _ term | skip term
  | skipIfOdd term | assert term _ | bind _ term | set _ term | peekBytes _ term => [term]
  | align multiple basis => multiple :: basis.terms
  | asciiUntil _ _ limit | bytesUntil _ _ limit => limit.toList
  | bitfield .. | vintId _ | vintSize _ | skipBlank | bytesUntilMarker .. => []

/-- The action asks for bytes, or for bits of one, that the input may not have. -/
def Action.demandsInput : Action → Bool
  | uint .. | int .. | ascii .. | bytes .. | skip _ | bitfield .. | vintId _ | vintSize _ => true
  | bytesLenient .. | skipIfOdd _ | align .. | assert .. | bind .. | set .. | skipBlank
  | peekBytes .. | asciiUntil .. | bytesUntil .. | bytesUntilMarker .. => false

namespace Run

/-- Moving without a check is a read that cannot fail. -/
theorem setCursor_eq (f : Cursor → Cursor) :
    (do setCursor (f (← cursor))) = read fun c => .ok ((), f c) :=
  rfl

theorem skip_eq (n : Nat) : (do
    let next ← ofExcept ((← cursor).skip n)
    setCursor next) = read fun c => (c.skip n).map fun next => ((), next) := by
  funext s
  rw [read_apply, run_bind]
  show (ofExcept (s.cursor.skip n) >>= setCursor) s = _
  cases s.cursor.skip n <;> rfl

end Run

theorem Action.runLenient_eq (setting : Setting) (id : String) (length : Term) :
    runLenient setting id length = (do
      let n ← Run.evalLength setting length
      let (offset, data) ← Run.read fun c =>
        .ok ((c.offset, (c.takeLenient n).1), (c.takeLenient n).2)
      if data.length < n then
        Run.report (.truncated "bytes_lenient" n data.length offset)
      Run.write id (.bytes data)) :=
  rfl

namespace OperationalOn

variable {setting : Setting} {sees : Term → Prop} {P : (α : Type) → Run α → Prop}

theorem offset (h : OperationalOn setting sees P) : P Nat Run.offset :=
  h.bind h.cursor fun _ => h.pure _

/-! ### Terms -/

theorem evalLength (h : OperationalOn setting sees P) {term : Term} (seen : sees term) :
    P Nat (Run.evalLength setting term) :=
  h.bind (h.eval seen) fun v => h.ofExcept v.toLength_fails

theorem evalTruth (h : OperationalOn setting sees P) {term : Term} (seen : sees term) :
    P Bool (Run.evalTruth setting term) :=
  h.bind (h.eval seen) fun _ => h.pure _

theorem evalLimit (h : OperationalOn setting sees P) {limit : Option Term}
    (seen : ∀ term ∈ limit.toList, sees term) : P (Option Nat) (Run.evalLimit setting limit) := by
  cases limit with
  | none => exact h.pure none
  | some term => exact h.bind (h.evalLength (seen term (.head _))) fun _ => h.pure _

theorem condition (h : OperationalOn setting sees P) (absent : Bool) {term : Option Term}
    (seen : ∀ t ∈ term.toList, sees t) : P Bool (Block.condition setting absent term) := by
  cases term with
  | none => exact h.pure absent
  | some term => exact h.evalTruth (seen term (.head _))

/-! ### Lenient actions -/

theorem move (h : OperationalOn setting sees P) (f : Cursor → Cursor)
    (hf : ∀ c : Cursor, c.offset ≤ c.length → c.Ahead (f c)) :
    P Unit (do Run.setCursor (f (← Run.cursor))) := by
  rw [Run.setCursor_eq]
  exact h.read (.lenient _ hf)

theorem runLenient (h : OperationalOn setting sees P) (id : String) {length : Term}
    (seen : sees length) : P Unit (Action.runLenient setting id length) := by
  rw [Action.runLenient_eq]
  refine h.bind (h.evalLength seen) fun n =>
    h.bind (h.read (.lenient _ fun _ => Cursor.takeLenient_ahead)) fun (offset, data) => ?_
  dsimp only
  split
  · exact h.bind (h.log _) fun _ => h.write id _
  · exact h.write id _

theorem basisOffset (h : OperationalOn setting sees P) {basis : Basis}
    (seen : ∀ term ∈ basis.terms, sees term) : P Nat (Action.basisOffset setting basis) := by
  cases basis with
  | scope => exact h.regionStart
  | global => exact h.pure 0
  | term t => exact h.evalLength (seen t (.head _))

theorem runAlign (h : OperationalOn setting sees P) (overflow : P Nat (throw .overflow))
    {multiple : Term} {basis : Basis} (hmultiple : sees multiple)
    (hbasis : ∀ term ∈ basis.terms, sees term) :
    P Unit (Action.runAlign setting multiple basis) := by
  have checked (x : Option Nat) : P Nat (Run.checked x) := by
    cases x with
    | none => exact overflow
    | some n => exact h.pure n
  refine h.bind (h.evalLength hmultiple) fun n => ?_
  split
  · exact h.ofExcept (.error (.invalidSchema _))
  · exact h.bind (h.basisOffset hbasis) fun base => h.bind h.offset fun offset =>
      h.bind (checked _) fun position => h.move (fun c => c.skipLenient (position - offset))
        fun _ inside => Cursor.skipLenient_ahead inside

/-- The run is measured before it is read, so the read is served. -/
theorem readRun (h : OperationalOn setting sees P) (id : String) {scan : List UInt8 → Nat}
    {f : Nat → Cursor → Except Error (Value × Cursor)}
    (hf : ∀ n (c : Cursor), n ≤ c.remaining → ∃ v, f n c = .ok (v, c.advance n))
    (hscan : ∀ data, scan data ≤ data.length) : P Unit (Action.readRun id scan f) :=
  h.bind (h.read (.measured hf hscan)) fun v => h.write id v

/-! ### Strict actions -/

section

variable (h : OperationalOn setting sees P)
  (hread : ∀ (α : Type) (f : Cursor → Except Error (α × Cursor)), Reads setting f →
    P α (Run.read f))

include h hread

theorem readField {f : Nat → Cursor → Except Error (Value × Cursor)}
    (hf : ∀ n, Reads setting (f n)) (id : String) {length : Term} (seen : sees length) :
    P Unit (Action.readField setting id length f) :=
  h.bind (h.evalLength seen) fun n => h.bind (hread _ _ (hf n)) fun v => h.write id v

theorem runSkip {length : Term} (seen : sees length) :
    P Unit ((Action.skip length).run setting) := by
  refine h.bind (h.evalLength seen) fun n => ?_
  rw [Run.skip_eq]
  exact hread _ _ (Cursor.skip_reads n)

theorem runBits (id : Option String) (entries : List BitField) :
    P Unit (Action.runBits id entries) := by
  refine h.bind (hread _ _ Cursor.readByte_reads) fun byte =>
    h.bind (h.ofExcept (BitField.unpack_fails byte entries 8)) fun fields => ?_
  cases id with
  | none => exact h.merge fields
  | some id => exact h.bind (h.write id _) fun _ => h.merge fields

theorem runVint (id : String) (keepMarker : Bool) : P Unit (Action.runVint id keepMarker) :=
  h.bind (hread _ _ (Vint.read_reads keepMarker)) fun _ => h.write id _

end

/-- An action has the property when its strict reads, its assignments and its alignment, if any,
have it. -/
theorem action (h : OperationalOn setting sees P) (a : Action)
    (seen : ∀ term ∈ a.terms, sees term)
    (hread : a.demandsInput = true → ∀ (α : Type) (f : Cursor → Except Error (α × Cursor)),
      Reads setting f → P α (Run.read f))
    (hset : ∀ id value, a = .set id value →
      ∀ v, P Unit (Run.mapScopes fun s => s.assign id v))
    (halign : ∀ multiple basis, a = .align multiple basis →
      P Unit (Action.runAlign setting multiple basis)) : P Unit (a.run setting) := by
  have head {term : Term} {rest : List Term} (h : ∀ t ∈ term :: rest, sees t) : sees term :=
    h term (.head rest)
  cases a with
  | uint id length => exact h.readField (hread rfl) Action.uintField_reads id (head seen)
  | int id length => exact h.readField (hread rfl) Action.intField_reads id (head seen)
  | ascii id length => exact h.readField (hread rfl) Action.asciiField_reads id (head seen)
  | bytes id length => exact h.readField (hread rfl) Action.bytesField_reads id (head seen)
  | bytesLenient id length => exact h.runLenient id (head seen)
  | skip length => exact h.runSkip (hread rfl) (head seen)
  | skipIfOdd ref =>
    refine h.bind (h.eval (head seen)) fun v =>
      h.bind (h.ofExcept (v.toFloat_fails.imp fun _ => IsCoercion.isMistake)) fun x => ?_
    split
    · exact h.move _ fun _ inside => Cursor.skipLenient_ahead inside
    · exact h.pure _
  | bitfield id fields => exact h.runBits (hread rfl) id fields
  | vintId id => exact h.runVint (hread rfl) id true
  | vintSize id => exact h.runVint (hread rfl) id false
  | align multiple basis => exact halign multiple basis rfl
  | assert condition message =>
    refine h.bind (h.evalTruth (head seen)) fun b => ?_
    split
    · exact h.pure _
    · exact h.assertionFailed message
  | bind id value => exact h.bind (h.eval (head seen)) fun v => h.write id v
  | set id value => exact h.bind (h.eval (head seen)) fun v => hset id value rfl v
  | skipBlank =>
    exact h.move (fun c => c.skipLenient (Scan.blanks c.rest))
      fun _ inside => Cursor.skipLenient_ahead inside
  | peekBytes id length =>
    exact h.bind (h.evalLength (head seen)) fun n => h.bind h.cursor fun c => h.write id _
  | asciiUntil id terminators limit =>
    exact h.bind (h.evalLimit seen) fun max =>
      h.readRun id Action.asciiField_of_le fun data => Scan.untilAny_le data terminators max
  | bytesUntil id sequence limit =>
    exact h.bind (h.evalLimit seen) fun max =>
      h.readRun id Action.bytesField_of_le fun data => Scan.untilSequence_le data sequence max
  | bytesUntilMarker id marker values ranges =>
    exact h.readRun id Action.bytesField_of_le
      (Scan.untilMarker_le marker (Scan.passes values ranges))

end OperationalOn

/-! ### Properties that do not care for the terms -/

namespace Operational

variable {setting : Setting} {P : (α : Type) → Run α → Prop}

theorem cursor (h : Operational setting P) : P Cursor Run.cursor := h.bind h.get fun _ => h.pure _

theorem on (h : Operational setting P) : OperationalOn setting (fun _ => True) P where
  pure := h.pure
  bind := h.bind
  cursor := h.cursor
  regionStart := by
    refine h.bind h.get fun s => ?_
    split <;> exact h.pure _
  log := h.log
  eval _ := h.eval _
  ofExcept := h.ofExcept
  assertionFailed := h.assertionFailed
  write := h.write
  merge := h.merge
  read := h.read

theorem offset (h : Operational setting P) : P Nat Run.offset := h.on.offset

theorem evalLength (h : Operational setting P) (term : Term) :
    P Nat (Run.evalLength setting term) :=
  h.on.evalLength trivial

theorem evalTruth (h : Operational setting P) (term : Term) :
    P Bool (Run.evalTruth setting term) :=
  h.on.evalTruth trivial

theorem evalLimit (h : Operational setting P) (term : Option Term) :
    P (Option Nat) (Run.evalLimit setting term) :=
  h.on.evalLimit fun _ _ => trivial

theorem condition (h : Operational setting P) (absent : Bool) (term : Option Term) :
    P Bool (Block.condition setting absent term) :=
  h.on.condition absent fun _ _ => trivial

theorem evalNumber (h : Operational setting P) (term : Term) :
    P Value (Run.evalNumber setting term) :=
  h.bind (h.eval term) fun v => h.ofExcept (v.toNumber_fails.imp fun _ => IsCoercion.isMistake)

theorem bindAll (h : Operational setting P) (frame : Record) (terms : List (String × Term)) :
    P Record (Block.bindAll setting frame terms) := by
  induction terms generalizing frame with
  | nil => exact h.pure frame
  | cons field rest ih => exact h.bind (h.evalNumber field.2) fun v => ih _

theorem bindArguments (h : Operational setting P) (name : String) (parameters : List String)
    (arguments : Arguments) : P Record (Block.bind setting name parameters arguments) := by
  cases arguments with
  | named terms => exact h.bindAll _ terms
  | positional terms =>
    simp only [Block.bind]
    split
    · exact h.ofExcept (.error (.invalidSchema _))
    · exact h.bindAll _ _

theorem runAlign (h : Operational setting P) (overflow : P Nat (throw .overflow))
    (multiple : Term) (basis : Basis) : P Unit (Action.runAlign setting multiple basis) :=
  h.on.runAlign overflow trivial fun _ _ => trivial

theorem action (h : Operational setting P) (a : Action)
    (hread : a.demandsInput = true → ∀ (α : Type) (f : Cursor → Except Error (α × Cursor)),
      Reads setting f → P α (Run.read f))
    (hset : ∀ id value, a = .set id value →
      ∀ v, P Unit (Run.mapScopes fun s => s.assign id v))
    (halign : ∀ multiple basis, a = .align multiple basis →
      P Unit (Action.runAlign setting multiple basis)) : P Unit (a.run setting) :=
  h.on.action a (fun _ _ => trivial) hread hset halign

end Operational

end ByteSchema
