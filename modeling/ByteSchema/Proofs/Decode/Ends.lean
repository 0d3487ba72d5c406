import ByteSchema.Decode.Block
import Mathlib.Data.List.Forall2

/-!
# How a run ends

`Ends m s done halts` speaks of both ways in which `m` can end from `s`. The equations below push
it through the operations, so that a claim about a program becomes one about states.
-/

namespace ByteSchema

variable {ε σ α β : Type}

/-- `done` holds of the result of `m` from `s`, or `halts` of the halt. -/
def Ends (m : EStateM ε σ α) (s : σ) (done : α → σ → Prop) (halts : ε → σ → Prop) : Prop :=
  match m s with
  | .ok a t => done a t
  | .error e t => halts e t

namespace Ends

variable {m : EStateM ε σ α} {s t : σ} {done done' : α → σ → Prop} {halts halts' : ε → σ → Prop}

theorem of_ok {a : α} (h : Ends m s done halts) (hm : m s = .ok a t) : done a t := by
  simpa [Ends, hm] using h

theorem of_error {e : ε} (h : Ends m s done halts) (hm : m s = .error e t) : halts e t := by
  simpa [Ends, hm] using h

theorem intro (hok : ∀ a t, m s = .ok a t → done a t)
    (herror : ∀ e t, m s = .error e t → halts e t) : Ends m s done halts := by
  unfold Ends
  split
  · next h => exact hok _ _ h
  · next h => exact herror _ _ h

theorem exists_ok (h : Ends m s done fun _ _ => False) : ∃ a t, m s = .ok a t ∧ done a t := by
  cases hm : m s with
  | ok a t => exact ⟨a, t, rfl, h.of_ok hm⟩
  | error e t => exact (h.of_error hm).elim

theorem imp (h : Ends m s done halts) (hdone : ∀ a t, done a t → done' a t)
    (hhalts : ∀ e t, halts e t → halts' e t) : Ends m s done' halts' :=
  .intro (fun _ _ hm => hdone _ _ (h.of_ok hm)) fun _ _ hm => hhalts _ _ (h.of_error hm)

theorem imp_done (h : Ends m s done halts) (hdone : ∀ a t, done a t → done' a t) :
    Ends m s done' halts :=
  h.imp hdone fun _ _ he => he

theorem and (h : Ends m s done halts) (h' : Ends m s done' halts') :
    Ends m s (fun a t => done a t ∧ done' a t) (fun e t => halts e t ∧ halts' e t) :=
  .intro (fun _ _ hm => ⟨h.of_ok hm, h'.of_ok hm⟩) fun _ _ hm => ⟨h.of_error hm, h'.of_error hm⟩

end Ends

/-- A sequence without a state succeeds by the success of both parts. -/
theorem bind_ok {x : Except ε α} {f : α → Except ε β} {b : β} (h : x >>= f = .ok b) :
    ∃ a, x = .ok a ∧ f a = .ok b := by
  cases x with
  | error e => cases h
  | ok a => exact ⟨a, rfl, h⟩

theorem mapM_ok {read : β → Except ε α} {as : List α} {items : List β} :
    items.mapM read = .ok as ↔ List.Forall₂ (fun a item => read item = .ok a) as items := by
  constructor
  · intro h
    induction items generalizing as with
    | nil =>
      cases h
      exact .nil
    | cons item items ih =>
      rw [List.mapM_cons] at h
      obtain ⟨a, first, h⟩ := bind_ok h
      obtain ⟨rest, later, ⟨⟩⟩ := bind_ok h
      exact .cons first (ih later)
  · intro h
    induction h with
    | nil => rfl
    | cons first _ ih =>
      rw [List.mapM_cons, first, ih]
      rfl

theorem exists_mapM_ok {read : β → Except ε α} {items : List β} :
    (∃ as, items.mapM read = .ok as) ↔ ∀ item ∈ items, ∃ a, read item = .ok a := by
  induction items with
  | nil => exact ⟨fun _ _ none => absurd none List.not_mem_nil, fun _ => ⟨[], rfl⟩⟩
  | cons item items ih =>
    rw [List.forall_mem_cons, ← ih]
    constructor
    · rintro ⟨as, h⟩
      cases mapM_ok.mp h with
      | cons first rest => exact ⟨⟨_, first⟩, _, mapM_ok.mpr rest⟩
    · rintro ⟨⟨a, first⟩, as, rest⟩
      exact ⟨a :: as, mapM_ok.mpr (.cons first (mapM_ok.mp rest))⟩

theorem toOption_eq_some {x : Except ε α} {a : α} : x.toOption = some a ↔ x = .ok a := by
  cases x <;> simp [Except.toOption]

theorem exists_of_map {x : Except ε α} {f : α → β} {b : β} (h : (x.map f).toOption = some b) :
    ∃ a, x = .ok a ∧ f a = b := by
  cases x with
  | error e => cases h
  | ok a => exact ⟨a, rfl, Option.some.inj h⟩

/-- Whether `m` succeeds from `s`. -/
def Succeeds (m : EStateM ε σ α) (s : σ) : Bool :=
  match m s with
  | .ok .. => true
  | .error .. => false

theorem exists_of_succeeds {m : EStateM ε σ α} {s : σ} (h : Succeeds m s = true) :
    ∃ a t, m s = .ok a t := by
  cases hm : m s with
  | ok a t => exact ⟨a, t, rfl⟩
  | error e t => simp [Succeeds, hm] at h

section Operations

variable {s : σ} {done : α → σ → Prop} {halts : ε → σ → Prop}

theorem ends_iff_of_ok {m : EStateM ε σ α} {a : α} {t : σ} (hm : m s = .ok a t) :
    Ends m s done halts ↔ done a t := by
  simp [Ends, hm]

@[simp] theorem ends_pure {a : α} : Ends (pure a : EStateM ε σ α) s done halts ↔ done a s :=
  Iff.rfl

@[simp] theorem ends_throw {e : ε} : Ends (throw e : EStateM ε σ α) s done halts ↔ halts e s :=
  Iff.rfl

theorem run_bind (m : EStateM ε σ β) (f : β → EStateM ε σ α) (s : σ) :
    (m >>= f) s = match m s with
      | .ok b t => f b t
      | .error e t => .error e t := by
  show EStateM.bind m f s = _
  unfold EStateM.bind
  cases m s <;> rfl

theorem bind_of_ok {m : EStateM ε σ β} {f : β → EStateM ε σ α} {t : σ} {b : β}
    (h : m s = .ok b t) : (m >>= f) s = f b t := by
  rw [run_bind, h]

theorem bind_of_error {m : EStateM ε σ β} {f : β → EStateM ε σ α} {t : σ} {e : ε}
    (h : m s = .error e t) : (m >>= f) s = .error e t := by
  rw [run_bind, h]

@[simp] theorem ends_bind {m : EStateM ε σ β} {f : β → EStateM ε σ α} :
    Ends (m >>= f) s done halts ↔ Ends m s (fun b t => Ends (f b) t done halts) halts := by
  unfold Ends
  rw [run_bind]
  cases m s <;> rfl

@[simp] theorem ends_map {m : EStateM ε σ β} {f : β → α} :
    Ends (f <$> m) s done halts ↔ Ends m s (fun b t => done (f b) t) halts := by
  show (match EStateM.map f m s with | .ok a t => _ | .error e t => _) ↔ _
  unfold EStateM.map Ends
  cases m s <;> rfl

@[simp] theorem ends_tryCatch {m : EStateM ε σ α} {handler : ε → EStateM ε σ α} :
    Ends (tryCatch m handler) s done halts ↔
      Ends m s done fun e t => Ends (handler e) t done halts := by
  have caught : tryCatch m handler s = EStateM.tryCatch m handler s := rfl
  unfold Ends
  rw [caught]
  unfold EStateM.tryCatch
  cases m s <;> rfl

@[simp] theorem ends_get {done : σ → σ → Prop} :
    Ends (get : EStateM ε σ σ) s done halts ↔ done s s :=
  Iff.rfl

@[simp] theorem ends_modify {f : σ → σ} {done : PUnit → σ → Prop} :
    Ends (modify f : EStateM ε σ PUnit) s done halts ↔ done () (f s) :=
  Iff.rfl

end Operations

namespace Run

variable {s : State} {done : α → State → Prop} {unit : Unit → State → Prop}
  {halts : Halt → State → Prop}

@[simp] theorem ends_fail {e : Error} : Ends (fail e : Run α) s done halts ↔ halts (.failed e) s :=
  Iff.rfl

theorem ends_ofExcept {x : Except Error α} : Ends (ofExcept x) s done halts ↔
    (∀ a, x = .ok a → done a s) ∧ ∀ e, x = .error e → halts (.failed e) s := by
  cases x <;> simp [ofExcept]

@[simp] theorem ends_log {event : Event} :
    Ends (log event) s unit halts ↔ unit () { s with log := event :: s.log } :=
  Iff.rfl

@[simp] theorem ends_report {d : Diagnostic} :
    Ends (report d) s unit halts ↔ unit () { s with log := .diagnostic d :: s.log } :=
  Iff.rfl

@[simp] theorem ends_cursor {done : Cursor → State → Prop} :
    Ends cursor s done halts ↔ done s.cursor s :=
  Iff.rfl

@[simp] theorem ends_offset {done : Nat → State → Prop} :
    Ends offset s done halts ↔ done s.cursor.offset s :=
  Iff.rfl

@[simp] theorem ends_setCursor {c : Cursor} :
    Ends (setCursor c) s unit halts ↔ unit () { s with cursor := c } :=
  Iff.rfl

@[simp] theorem ends_setOrder {order : ByteOrder} : Ends (setOrder order) s unit halts ↔
    unit () { s with cursor := { s.cursor with order := order } } :=
  Iff.rfl

theorem read_apply (s : State) (f : Cursor → Except Error (α × Cursor)) : read f s =
    match f s.cursor with
    | .ok (a, next) => .ok a { s with cursor := next }
    | .error e => .error (.failed e) s := by
  have opened : read f s =
    (ofExcept (f s.cursor) >>= fun r => do setCursor r.2; return r.1) s := rfl
  rw [opened]
  cases f s.cursor <;> rfl

theorem ends_read {f : Cursor → Except Error (α × Cursor)} : Ends (read f) s done halts ↔
    (∀ a next, f s.cursor = .ok (a, next) → done a { s with cursor := next }) ∧
      ∀ e, f s.cursor = .error e → halts (.failed e) s := by
  simp only [read, ends_bind, ends_cursor, ends_ofExcept, Prod.forall]
  rfl

@[simp] theorem ends_mapScopes {f : Scopes → Scopes} :
    Ends (mapScopes f) s unit halts ↔ unit () { s with scopes := f s.scopes } :=
  Iff.rfl

@[simp] theorem ends_write {id : String} {value : Value} : Ends (write id value) s unit halts ↔
    unit () { s with scopes := s.scopes.write id value } :=
  Iff.rfl

theorem popScope_apply (s : State) : popScope s = match s.scopes.pop? with
    | some (r, scopes) => .ok r { s with scopes := scopes }
    | none => .error (.failed (.internal "scope stack underflow")) s := by
  have opened : popScope s = (match s.scopes.pop? with
    | some (r, scopes) => do
      mapScopes fun _ => scopes
      return r
    | none => fail (.internal "scope stack underflow")) s := rfl
  rw [opened]
  cases s.scopes.pop? <;> rfl

theorem ends_popScope {done : Record → State → Prop} {r : Record} {scopes : Scopes}
    (h : s.scopes.pop? = some (r, scopes)) :
    Ends popScope s done halts ↔ done r { s with scopes := scopes } := by
  simp [popScope, h]

theorem ends_popFrame {scopes : Scopes} (h : s.scopes.popFrame? = some scopes) :
    Ends popFrame s unit halts ↔ unit () { s with scopes := scopes } := by
  simp [popFrame, h]

theorem popFrame_of_some {s : State} {scopes : Scopes} (h : s.scopes.popFrame? = some scopes) :
    popFrame s = .ok () { s with scopes := scopes } := by
  have popped : Ends popFrame s (fun _ t => t = { s with scopes := scopes }) fun _ _ => False :=
    (ends_popFrame h).mpr rfl
  obtain ⟨_, _, ht, rfl⟩ := popped.exists_ok
  exact ht

theorem ends_eval {setting : Setting} {term : Term} {done : Value → State → Prop} :
    Ends (eval setting term) s done halts ↔ Ends (evaluate (env setting s) term) s.log
      (fun v log => done v { s with log := log })
      (fun e log => halts (.failed e) { s with log := log }) := by
  unfold Ends eval
  cases evaluate (env setting s) term s.log <;> rfl

variable {setting : Setting} {term : Term} {v : Value} {n : Nat} {after : Log}

theorem eval_of_ok (h : evaluate (env setting s) term s.log = .ok v after) :
    eval setting term s = .ok v { s with log := after } := by
  rw [eval, h]

theorem evalLength_of_ok (h : evaluate (env setting s) term s.log = .ok v after)
    (hv : v.toLength = .ok n) : evalLength setting term s = .ok n { s with log := after } := by
  rw [evalLength, bind_of_ok (eval_of_ok h), hv]
  rfl

theorem evalTruth_of_ok (h : evaluate (env setting s) term s.log = .ok v after) :
    evalTruth setting term s = .ok v.isTruthy { s with log := after } := by
  rw [evalTruth, bind_of_ok (eval_of_ok h)]
  rfl

end Run

namespace Action

variable {setting : Setting} {s : State} {id : String} {length : Term} {n : Nat}
  {f : Nat → Cursor → Except Error (Value × Cursor)}

theorem readField_of_ok {v : Value} {next : Cursor}
    (hn : Run.evalLength setting length s = .ok n s) (hf : f n s.cursor = .ok (v, next)) :
    readField setting id length f s =
      .ok () { s with cursor := next, scopes := s.scopes.write id v } := by
  rw [readField, run_bind, hn]
  dsimp only
  rw [run_bind, Run.read_apply, hf]
  rfl

theorem readField_of_error {e : Error}
    (hn : Run.evalLength setting length s = .ok n s) (hf : f n s.cursor = .error e) :
    readField setting id length f s = .error (.failed e) s := by
  rw [readField, run_bind, hn]
  dsimp only
  rw [run_bind, Run.read_apply, hf]

theorem basisOffset_scope (s : State) : basisOffset setting .scope s =
    .ok ((s.regions.head?.map Region.start).getD 0) s := by
  obtain ⟨cursor, scopes, regions, depth, log⟩ := s
  cases regions <;> rfl

end Action

/-! ### Blocks -/

namespace Block

variable {s : State} {done : Unit → State → Prop} {halts : Halt → State → Prop}
  {setting : Setting} {body : Run Unit}

/-- One level more is more than the limit allows. -/
def TooDeep (setting : Setting) (s : State) : Prop :=
  0 < setting.config.maxDepth ∧ setting.config.maxDepth < s.depth + 1

instance : Decidable (TooDeep setting s) := inferInstanceAs (Decidable (_ ∧ _))

theorem enter_apply : enter setting s =
    (if TooDeep setting s then Run.fail (.depthExceeded setting.config.maxDepth)
      else pure () : Run Unit) { s with depth := s.depth + 1 } :=
  rfl

theorem enter_of_tooDeep (h : TooDeep setting s) : enter setting s =
    .error (.failed (.depthExceeded setting.config.maxDepth)) { s with depth := s.depth + 1 } := by
  rw [enter_apply, if_pos h]
  rfl

theorem enter_of_not_tooDeep (h : ¬ TooDeep setting s) :
    enter setting s = .ok () { s with depth := s.depth + 1 } := by
  rw [enter_apply, if_neg h]
  rfl

theorem ends_nested : Ends (nested setting body) s done halts ↔
    (TooDeep setting s →
      halts (.failed (.depthExceeded setting.config.maxDepth)) { s with depth := s.depth + 1 }) ∧
    (¬ TooDeep setting s → Ends body { s with depth := s.depth + 1 }
      (fun _ t => done () { t with depth := t.depth - 1 }) halts) := by
  simp only [nested, enter, leave, TooDeep, ends_bind, ends_modify, ends_get]
  split
  · next deep => exact ⟨fun h => ⟨fun _ => h, absurd deep⟩, fun h => h.1 deep⟩
  · next deep => exact ⟨fun h => ⟨fun deep' => absurd deep' deep, fun _ => h⟩, fun h => h.2 deep⟩

/-- Where the innermost region ends, or the input outside of all regions. -/
def regionEnd (s : State) : Nat :=
  match s.regions with
  | region :: _ => region.stop
  | [] => s.cursor.length

theorem ends_atRegionEnd {done : Bool → State → Prop} :
    Ends atRegionEnd s done halts ↔ done (regionEnd s ≤ s.cursor.offset) s := by
  obtain ⟨cursor, scopes, regions, depth, log⟩ := s
  cases regions <;> rfl

/-- The state in which the items of a region start. -/
def opened (id : String) (stop : Nat) (s : State) : State :=
  { s with
    scopes := s.scopes.write id (.list [])
    regions := ⟨s.cursor.offset, stop⟩ :: s.regions
    log := .region id s.cursor.offset stop :: s.log }

/-- The state after a region, given the one that its items ended in. -/
def closed (start stop : Nat) (s : State) : State :=
  { s with
    cursor := s.cursor.seek stop
    regions := s.regions.drop 1
    log :=
      if stop < s.cursor.offset then
        .diagnostic (.regionOverrun start stop s.cursor.offset) :: s.log
      else s.log }

/-- Where a region of `length` bytes from the cursor on ends. -/
def regionStop (s : State) (length : Nat) : Nat := min (s.cursor.offset + length) s.cursor.length

/-- A region of `n` bytes from the cursor on. -/
def inRegion (id : String) (body : Run Unit) (n : Nat) : Run Unit := fun s =>
  let stop := regionStop s n
  (do
    fill stop (regionItem id body) (stop - s.cursor.offset + 1)
    modify (closed s.cursor.offset stop)) (opened id stop s)

theorem runBounded_eq {id : String} {length : Term} : runBounded setting id length body = (do
    inRegion id body (← Run.evalLength setting length)) := by
  have close (start stop : Nat) : (do
      closeRegion
      let c ← Run.cursor
      if stop < c.offset then Run.report (.regionOverrun start stop c.offset)
      Run.setCursor (c.seek stop)) = (modify (closed start stop) : Run Unit) := by
    funext t
    have ends : Ends (do
        closeRegion
        let c ← Run.cursor
        if stop < c.offset then Run.report (.regionOverrun start stop c.offset)
        Run.setCursor (c.seek stop)) t (fun _ u => u = closed start stop t) fun _ _ => False := by
      simp only [closeRegion, closed, ends_bind, ends_modify, Run.ends_cursor]
      split <;> rfl
    obtain ⟨_, _, hclose, rfl⟩ := ends.exists_ok
    exact hclose
  refine congrArg _ (funext fun n => funext fun s => ?_)
  simp only [inRegion, ← close]
  rfl

theorem ends_runBounded {id : String} {length : Term} :
    Ends (runBounded setting id length body) s done halts ↔
      Ends (Run.evalLength setting length) s (fun n s =>
        Ends (fill (regionStop s n) (regionItem id body) (regionStop s n - s.cursor.offset + 1))
          (opened id (regionStop s n) s)
          (fun _ t => done () (closed s.cursor.offset (regionStop s n) t)) halts) halts := by
  have region (n : Nat) (s : State) : Ends (inRegion id body n) s done halts ↔
      Ends (fill (regionStop s n) (regionItem id body) (regionStop s n - s.cursor.offset + 1))
        (opened id (regionStop s n) s)
        (fun _ t => done () (closed s.cursor.offset (regionStop s n) t)) halts :=
    ends_bind
  rw [runBounded_eq, ends_bind]
  simp only [region]

def enterCall (body : Run Unit) (frame : Record) : Run Unit := do
  Run.mapScopes fun s => (s.pushFrame frame).push
  body
  let fields ← Run.popScope
  Run.popFrame
  Run.mapScopes fun s => s.mapTarget fun r => r.merge fields

def invoke (setting : Setting) (name : String) (parameters : List String) (arguments : Arguments)
    (body : Run Unit) : Run Unit := do
  let frame ← bind setting name parameters arguments
  Run.log (.template name (← Run.offset))
  enterCall body frame

theorem runTemplate_eq {call : Call} {name : String} {arguments : Arguments} :
    runTemplate setting call name arguments = (do
      let template ← Run.ofExcept (setting.schema.template? name)
      invoke setting name template.parameters arguments (call template)) :=
  rfl

end Block

end ByteSchema
