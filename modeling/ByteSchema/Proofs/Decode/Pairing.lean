import ByteSchema.Proofs.Decode.Balance
import ByteSchema.Proofs.Decode.Follows
import ByteSchema.Proofs.Decode.Tail

/-!
# Two decodes in step

A `Pairing` compares decodes in two settings, of an input and of the same input with more behind.
It says how the records and the reports of both compare, at which halts of the first decode the two
part, and has a law for each thing that settings differ in: levels, calls of functions, templates.
The operations below keep decodes in step that are in step before.
-/

namespace ByteSchema

/-- A relation of scopes that every operation keeps and no path sees. -/
structure Scopes.Congruence (r : Scopes → Scopes → Prop) : Prop where
  resolve {a b : Scopes} : r a b → b.resolve = a.resolve
  mapTarget {a b : Scopes} (f : Record → Record) : r a b → r (a.mapTarget f) (b.mapTarget f)
  assign {a b : Scopes} (id : String) (value : Value) :
    r a b → r (a.assign id value) (b.assign id value)
  push {a b : Scopes} : r a b → r a.push b.push
  pushFrame {a b : Scopes} (frame : Record) : r a b → r (a.pushFrame frame) (b.pushFrame frame)
  pop? {a b : Scopes} : r a b → Option.Rel (fun x y => y.1 = x.1 ∧ r x.2 y.2) a.pop? b.pop?
  /-- Where a call ends that started from `a` and `b`. -/
  popFrame? {a b c d : Scopes} {frame : Record} : r a b → r c d → c.frames = frame :: a.frames →
    ∃ d', d.popFrame? = some d' ∧ r { c with frames := a.frames } d'

theorem Scopes.Congruence.eq : Congruence Eq where
  resolve := by
    rintro _ _ rfl
    rfl
  mapTarget f := congrArg fun s : Scopes => s.mapTarget f
  assign id value := congrArg fun s : Scopes => s.assign id value
  push := congrArg Scopes.push
  pushFrame frame := congrArg fun s : Scopes => s.pushFrame frame
  pop? := by
    rintro a _ rfl
    cases a.pop? with
    | none => exact .none
    | some popped => exact .some ⟨rfl, rfl⟩
  popFrame? := by
    rintro a _ c _ frame rfl rfl hframes
    exact ⟨_, by rw [Scopes.popFrame?, hframes], rfl⟩

/-- When nodes report on an input of `size` bytes. -/
inductive Grounded (size : Nat) : Diagnostic → Prop where
  | overrun {start stop offset : Nat} : start < stop → stop < offset → offset ≤ size →
      Grounded size (.regionOverrun start stop offset)
  | stalledList {offset : Nat} : offset ≤ size → Grounded size (.stalled "list" offset)
  | stalledRegion {offset : Nat} : offset < size → Grounded size (.stalled "bounded" offset)
  | truncated {requested available offset : Nat} : offset + available = size →
      available < requested → Grounded size (.truncated "bytes_lenient" requested available offset)

theorem Log.diagnostics_cons (event : Event) (log : Log) :
    Log.diagnostics (event :: log) = log.diagnostics ++ event.diagnostic?.toList := by
  simp only [Log.diagnostics, List.filterMap_cons]
  cases event.diagnostic? <;> simp

abbrev State.diagnostics (s : State) : List Diagnostic := s.log.diagnostics

/-- What two decodes compare by; the second input is the first one with `tail` behind. -/
structure Sides where
  data : List UInt8
  tail : List UInt8
  scopes : Scopes → Scopes → Prop
  reported : List Diagnostic → List Diagnostic → Prop
  parted : Halt → List Diagnostic → List Diagnostic → Prop
  later {halt : Halt} {ds es es' : List Diagnostic} :
    parted halt ds es → es <+: es' → parted halt ds es'

namespace Sides

/-- States of the two decodes after the same steps. -/
structure Alike (p : Sides) (s s' : State) : Prop where
  data : s.cursor.data = p.data
  inside : s.Inside
  cursor : s'.cursor = s.cursor.extend p.tail
  scopes : p.scopes s.scopes s'.scopes
  regions : s'.regions = s.regions
  depth : s'.depth = s.depth
  reported : p.reported s.diagnostics s'.diagnostics

namespace Alike

variable {q : Sides} {s s' : State}

theorem offset (h : q.Alike s s') : s'.cursor.offset = s.cursor.offset := by
  rw [h.cursor]
  rfl

theorem order (h : q.Alike s s') : s'.cursor.order = s.cursor.order := by
  rw [h.cursor]
  rfl

theorem before {setting : Setting} (h : q.Alike s s') :
    (Invariant.causes setting q.data).before s :=
  ⟨h.data, h.inside⟩

end Alike

def pace (p : Sides) : Pace Halt State where
  alike := p.Alike
  reports := State.diagnostics
  parted := p.parted
  later := p.later

def termPace (p : Sides) : Pace Error Log where
  alike log log' := p.reported log.diagnostics log'.diagnostics
  reports := Log.diagnostics
  parted e := p.parted (.failed e)
  later := p.later

end Sides

/-- What two decodes compare by, in settings that keep them in step until they part. -/
structure Pairing (A B : Setting) extends Sides where
  congruence : Scopes.Congruence scopes
  report {d : Diagnostic} {ds ds' : List Diagnostic} : Grounded data.length d → reported ds ds' →
    reported (ds ++ [d]) (ds' ++ [d])
  /-- Where the first input is too short, the second one may not be. -/
  short : tail = [] ∨
    ∀ {e : Error}, e.LacksInput → ∀ ds ds', reported ds ds' → parted (.failed e) ds ds'
  /-- The second setting may have templates that the first one lacks. -/
  template? (name : String) : B.schema.template? name = A.schema.template? name ∨
    ∃ e, A.schema.template? name = .error e ∧ ∀ ds ds', reported ds ds' → parted (.failed e) ds ds'
  call {s s' : State} : toSides.Alike s s' → ∀ name arguments,
    Follows toSides.termPace ((Run.env A s).call name arguments)
      ((Run.env B s').call name arguments)
  enter : Follows toSides.pace (Block.enter A) (Block.enter B)

section

variable {A B : Setting} {α : Type} {p : Pairing A B}


/-! ### Reports -/

theorem Env.call_grows (env : Env) (name : String) (arguments : List Value) :
    Grows Log.diagnostics (env.call name arguments) := by
  unfold Env.call
  split
  · next f _ =>
    cases f arguments with
    | ok v => exact .pure
    | error e => exact .throw
  · split
    · exact .throw
    · refine fun log => ?_
      show log.diagnostics <+: Log.diagnostics (_ :: log)
      rw [Log.diagnostics_cons]
      exact List.prefix_append _ _

theorem Follows.refl {ε σ : Type} {reports : σ → List Diagnostic} {m : EStateM ε σ α}
    (hm : Grows reports m) : Follows ⟨Eq, reports, fun _ _ _ => False, False.elim⟩ m m where
  grows := hm
  pairs := by
    rintro s _ rfl
    cases m s with
    | ok a t => exact .ok rfl
    | error e t => exact .error rfl

namespace Run

theorem log_grows {event : Event} : Grows State.diagnostics (log event) := by
  intro s
  show s.diagnostics <+: Log.diagnostics (_ :: s.log)
  rw [Log.diagnostics_cons]
  exact List.prefix_append _ _

theorem ofExcept_grows {x : Except Error α} : Grows State.diagnostics (ofExcept x) := by
  cases x with
  | ok a => exact .pure
  | error e => exact .throw

theorem popScope_grows : Grows State.diagnostics popScope := by
  refine .still fun s => ?_
  cases h : s.scopes.pop? with
  | none => simp [popScope, h]
  | some popped => exact (ends_popScope h).mpr rfl

theorem popFrame_grows : Grows State.diagnostics popFrame := by
  refine .still fun s => ?_
  cases h : s.scopes.popFrame? with
  | none => simp [popFrame, h]
  | some scopes => exact (ends_popFrame h).mpr rfl

end Run

theorem evaluate_grows (env : Env) (term : Term) : Grows Log.diagnostics (evaluate env term) :=
  (evaluate_follows ⟨rfl, fun name arguments => .refl (env.call_grows name arguments)⟩ term).grows

namespace Follows

theorem modify {f f' : State → State}
    (hstill : ∀ s, (f' s).diagnostics = s.diagnostics)
    (h : ∀ s s', p.Alike s s' → p.Alike (f s) (f' s')) :
    Follows p.pace (modify f : Run Unit) (modify f') where
  grows := .still fun s => hstill s
  pairs s s' hs := .ok (h s s' hs)

theorem log {event event' : Event} (h : event.diagnostic? = none)
    (h' : event'.diagnostic? = none) : Follows p.pace (Run.log event) (Run.log event') := by
  have quiet {event : Event} (h : event.diagnostic? = none) (log : Log) :
      Log.diagnostics (event :: log) = log.diagnostics := by
    simp [Log.diagnostics_cons, h]
  refine .modify (fun s => quiet h' s.log) fun s s' hs => { hs with reported := ?_ }
  show p.reported (Log.diagnostics (event :: s.log)) (Log.diagnostics (event' :: s'.log))
  rw [quiet h, quiet h']
  exact hs.reported

theorem report {d : Diagnostic} (h : Grounded p.data.length d) :
    Follows p.pace (Run.report d) (Run.report d) where
  grows := Run.log_grows
  pairs s s' hs := by
    refine .ok { hs with reported := ?_ }
    show p.reported (Log.diagnostics (.diagnostic d :: s.log))
      (Log.diagnostics (.diagnostic d :: s'.log))
    rw [Log.diagnostics_cons, Log.diagnostics_cons]
    exact p.report h hs.reported

theorem ofExcept {x : Except Error α} : Follows p.pace (Run.ofExcept x) (Run.ofExcept x) := by
  cases x with
  | ok a => exact .pure
  | error e => exact .throw

/-! ### The cursor -/

theorem offset : Follows p.pace Run.offset Run.offset where
  grows := .still fun _ => rfl
  pairs s s' hs := by
    show p.pace.Pairs (.ok s.cursor.offset s) (.ok s'.cursor.offset s')
    rw [hs.offset]
    exact .ok hs

theorem setOrder (order : ByteOrder) :
    Follows p.pace (Run.setOrder order) (Run.setOrder order) :=
  .modify (fun _ => rfl) fun _ _ hs =>
    { hs with cursor := congrArg (fun c : Cursor => { c with order := order }) hs.cursor }

theorem cursor_bind (htail : p.tail = []) {f f' : Cursor → Run α}
    (hgrows : ∀ c, Grows State.diagnostics (f' c))
    (h : ∀ c : Cursor, c.data = p.data → c.offset ≤ c.length → Follows p.pace (f c) (f' c)) :
    Follows p.pace (Run.cursor >>= f) (Run.cursor >>= f') where
  grows := .bind (.still fun _ => rfl) hgrows
  pairs s s' hs := by
    have same : s'.cursor = s.cursor := by rw [hs.cursor, htail, Cursor.extend_nil]
    show p.pace.Pairs (f s.cursor s) (f' s'.cursor s')
    rw [same]
    exact (h s.cursor hs.data hs.inside).pairs s s' hs

theorem setCursor (htail : p.tail = []) {c : Cursor} (hdata : c.data = p.data)
    (hinside : c.offset ≤ c.length) : Follows p.pace (Run.setCursor c) (Run.setCursor c) :=
  .modify (fun _ => rfl) fun _ _ hs =>
    { hs with data := hdata, inside := hinside, cursor := by rw [htail, Cursor.extend_nil] }

theorem move (htail : p.tail = []) {f : Cursor → Cursor}
    (hf : ∀ c : Cursor, c.offset ≤ c.length → c.Ahead (f c)) :
    Follows p.pace (do Run.setCursor (f (← Run.cursor)))
      (do Run.setCursor (f (← Run.cursor))) :=
  .cursor_bind htail (fun _ => .still fun _ => rfl) fun c hdata hinside =>
    .setCursor htail ((hf c hinside).data.trans hdata) (hf c hinside).inside

theorem read {f : Cursor → Except Error (α × Cursor)} (hreads : Reads A f)
    (hstrict : p.tail = [] ∨ Strict f) : Follows p.pace (Run.read f) (Run.read f) where
  grows := .still fun s => by
    rw [Run.ends_read]
    exact ⟨fun _ _ _ => rfl, fun _ _ => rfl⟩
  pairs s s' hs := by
    have same : (∃ e, f s.cursor = .error e ∧ e.LacksInput ∧ p.tail ≠ []) ∨
        f s'.cursor = (f s.cursor).map fun r => (r.1, r.2.extend p.tail) := by
      by_cases htail : p.tail = []
      · refine .inr ?_
        rw [hs.cursor, htail, Cursor.extend_nil]
        cases f s.cursor with
        | ok r => simp [Except.map, Cursor.extend_nil]
        | error e => rfl
      · obtain ⟨e, he, lacks⟩ | same := hstrict.resolve_left htail s.cursor p.tail hs.inside
        · exact .inl ⟨e, he, lacks, htail⟩
        · exact .inr (hs.cursor ▸ same)
    -- Where more input makes a difference, the first read lacked it, and the decodes part.
    have moves := hreads s.cursor hs.inside
    rw [Run.read_apply, Run.read_apply]
    obtain ⟨e, he, lacks, htail⟩ | same := same
    · rw [he]
      have parted := p.short.resolve_left htail lacks _ _ hs.reported
      cases f s'.cursor with
      | ok r => exact .partedOk parted
      | error e' => exact .partedError parted
    · rw [same]
      cases hread : f s.cursor with
      | error e => exact .error hs
      | ok r =>
        rw [hread] at moves
        exact .ok { hs with
          data := moves.data.trans hs.data, inside := moves.inside, cursor := rfl }

/-! ### The records -/

theorem mapScopes {f : Scopes → Scopes} (hf : ∀ a b, p.scopes a b → p.scopes (f a) (f b)) :
    Follows p.pace (Run.mapScopes f) (Run.mapScopes f) :=
  .modify (fun _ => rfl) fun _ _ hs => { hs with scopes := hf _ _ hs.scopes }

theorem mapTarget (f : Record → Record) :
    Follows p.pace (Run.mapScopes fun s => s.mapTarget f) (Run.mapScopes fun s => s.mapTarget f) :=
  .mapScopes fun _ _ => p.congruence.mapTarget f

theorem write (id : String) (value : Value) :
    Follows p.pace (Run.write id value) (Run.write id value) :=
  .mapTarget _

theorem popScope : Follows p.pace Run.popScope Run.popScope where
  grows := Run.popScope_grows
  pairs s s' hs := by
    have popped := p.congruence.pop? hs.scopes
    rw [Run.popScope_apply, Run.popScope_apply]
    generalize s.scopes.pop? = x at popped ⊢
    generalize s'.scopes.pop? = y at popped ⊢
    cases popped with
    | none => exact .error hs
    | @some x y h =>
      obtain ⟨r, scopes⟩ := x
      obtain ⟨r', scopes'⟩ := y
      obtain ⟨rfl, hscopes⟩ := h
      exact .ok { hs with scopes := hscopes }

/-! ### Terms -/

theorem eval (term : Term) : Follows p.pace (Run.eval A term) (Run.eval B term) where
  grows s := by
    rw [Run.ends_eval]
    exact evaluate_grows _ term s.log
  pairs s s' hs := by
    have env : (Run.env A s).Pairs p.termPace (Run.env B s') :=
      ⟨p.congruence.resolve hs.scopes, p.call hs⟩
    have pairs := (evaluate_follows env term).pairs s.log s'.log hs.reported
    unfold Run.eval
    generalize evaluate (Run.env A s) term s.log = r at pairs ⊢
    generalize evaluate (Run.env B s') term s'.log = r' at pairs ⊢
    cases pairs with
    | ok h => exact .ok { hs with reported := h }
    | error h => exact .error { hs with reported := h }
    | partedOk h => exact .partedOk h
    | partedError h => exact .partedError h

theorem evalNumber (term : Term) :
    Follows p.pace (Run.evalNumber A term) (Run.evalNumber B term) :=
  (Follows.eval term).bind fun _ => .ofExcept

theorem evalLength (term : Term) :
    Follows p.pace (Run.evalLength A term) (Run.evalLength B term) :=
  (Follows.eval term).bind fun _ => .ofExcept

theorem evalTruth (term : Term) :
    Follows p.pace (Run.evalTruth A term) (Run.evalTruth B term) :=
  (Follows.eval term).map

theorem evalLimit (term : Option Term) :
    Follows p.pace (Run.evalLimit A term) (Run.evalLimit B term) := by
  cases term with
  | none => exact .pure
  | some term => exact (Follows.evalLength term).map

end Follows

/-! ### Settings that differ little -/

theorem Block.enter_grows (setting : Setting) :
    Grows State.diagnostics (Block.enter setting) := by
  refine .still fun s => ?_
  by_cases deep : Block.TooDeep setting s
  · simp [Ends, Block.enter_of_tooDeep deep]
  · simp [Ends, Block.enter_of_not_tooDeep deep]

theorem Block.enter_follows {q : Sides} (limit : B.config.maxDepth = A.config.maxDepth) :
    Follows q.pace (Block.enter A) (Block.enter B) where
  grows := Block.enter_grows B
  pairs s s' hs := by
    have deeper : q.Alike { s with depth := s.depth + 1 } { s' with depth := s'.depth + 1 } :=
      { hs with depth := congrArg (· + 1) hs.depth }
    have same : Block.TooDeep B s' ↔ Block.TooDeep A s := by
      rw [Block.TooDeep, Block.TooDeep, limit, hs.depth]
    by_cases deep : Block.TooDeep A s
    · rw [Block.enter_of_tooDeep deep, Block.enter_of_tooDeep (same.mpr deep), limit]
      exact .error deeper
    · rw [Block.enter_of_not_tooDeep deep, Block.enter_of_not_tooDeep (mt same.mp deep)]
      exact .ok deeper

theorem Env.call_follows {q : Sides} {env env' : Env}
    (functions : env'.functions = env.functions) (strict : env'.strict = env.strict)
    (report : ∀ name, env.strict = false → env.functions.get? name = none → ∀ ds ds',
      q.reported ds ds' → q.reported (ds ++ [.unknownFunction name env.offset])
        (ds' ++ [.unknownFunction name env'.offset]))
    (name : String) (arguments : List Value) :
    Follows q.termPace (env.call name arguments) (env'.call name arguments) := by
  refine ⟨env'.call_grows name arguments, fun log log' h => ?_⟩
  unfold Env.call
  rw [functions, strict]
  cases missing : env.functions.get? name with
  | some f => exact Eval.ofExcept_follows.pairs log log' h
  | none =>
    cases lenient : env.strict with
    | true => exact .error h
    | false =>
      refine .ok ?_
      show q.reported (Log.diagnostics (_ :: log)) (Log.diagnostics (_ :: log'))
      rw [Log.diagnostics_cons, Log.diagnostics_cons]
      exact report name lenient missing _ _ h

/-- Settings with the same templates and functions, that treat unknown functions alike. -/
structure Setting.Similar (A B : Setting) : Prop where
  templates : B.schema.templates = A.schema.templates
  functions : B.functions = A.functions
  strict : B.config.strictFunctions = A.config.strictFunctions

theorem Setting.Similar.refl (setting : Setting) : setting.Similar setting := ⟨rfl, rfl, rfl⟩

def Sides.plain (data tail : List UInt8) (parted : Halt → List Diagnostic → List Diagnostic → Prop)
    (later : ∀ {halt ds es es'}, parted halt ds es → es <+: es' → parted halt ds es') : Sides where
  data := data
  tail := tail
  scopes := Eq
  reported ds ds' := ds' = ds
  parted := parted
  later := later

def Sides.equal (data : List UInt8) : Sides :=
  .plain data [] (fun _ _ _ => False) False.elim

/-- Similar settings, sides with the same records and reports: the decodes part at the limit on
levels, or for lack of input. -/
def Pairing.plain {q : Sides} (records : q.scopes = Eq)
    (reports : q.reported = fun ds ds' => ds' = ds) (similar : A.Similar B)
    (short : q.tail = [] ∨
      ∀ {e : Error}, e.LacksInput → ∀ ds ds', q.reported ds ds' → q.parted (.failed e) ds ds')
    (enter : Follows q.pace (Block.enter A) (Block.enter B)) : Pairing A B where
  toSides := q
  congruence := records ▸ .eq
  report _ h := by
    rw [reports] at h ⊢
    rw [h]
  short := short
  template? name := .inl (by rw [Schema.template?, Schema.template?, similar.templates])
  call hs := Env.call_follows similar.functions similar.strict fun name _ _ ds ds' h => by
    rw [reports] at h ⊢
    have offset : (Run.env B _).offset = (Run.env A _).offset := hs.offset
    rw [h, offset]
  enter := enter

/-- Similar settings with the same limit on levels: the decodes never part. -/
def Pairing.equal (data : List UInt8) (similar : A.Similar B)
    (limit : B.config.maxDepth = A.config.maxDepth) : Pairing A B :=
  .plain (q := .equal data) rfl rfl similar (.inl rfl) (Block.enter_follows limit)

def Pairing.same (setting : Setting) : Pairing setting setting :=
  .equal [] (.refl setting) rfl

end

end ByteSchema
