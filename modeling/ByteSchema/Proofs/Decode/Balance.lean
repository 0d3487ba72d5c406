import ByteSchema.Decode.Decoder
import ByteSchema.Proofs.Decode.Nodes
import ByteSchema.Proofs.Decode.Steps

/-!
# Blocks are balanced

An `Invariant` holds before every node of a decode, and says what holds where one halts. It is
enough that it survives the four things that happen between nodes: the cursor moves ahead, a
region opens, a level opens, a step halts. `run_keeps` then has it all through a block, and that
the block ends `Balanced`.
-/

namespace ByteSchema

/-- A property of the states before nodes, with one of the halts that follow from it. -/
structure Invariant (setting : Setting) where
  before : State → Prop
  halts : Halt → State → Prop
  inside {s : State} : before s → s.Inside
  advanced {s t : State} : before s → Advanced s t → before t
  opened {s : State} {stop : Nat} : before s → s.cursor.offset ≤ stop → stop ≤ s.cursor.length →
    before { s with regions := ⟨s.cursor.offset, stop⟩ :: s.regions }
  deeper {s : State} : before s → ¬ Block.TooDeep setting s →
    before { s with depth := s.depth + 1 }
  halted {s t : State} {halt : Halt} : before s → Advanced s t → halt.Caused setting s.cursor.data →
    halts halt t
  tooDeep {s : State} : before s → Block.TooDeep setting s →
    halts (.failed (.depthExceeded setting.config.maxDepth)) { s with depth := s.depth + 1 }

/-- Where `m` starts with the invariant, it ends balanced or halts as the invariant says. -/
def Keeps {α : Type} {setting : Setting} (i : Invariant setting) (m : Run α) : Prop :=
  ∀ s, i.before s → Ends m s (fun _ t => Balanced s t) i.halts

section

variable {α β : Type} {setting : Setting} {i : Invariant setting} {call : Call}

theorem Settles.keeps {m : Run α} (hm : Settles setting m) : Keeps i m := by
  intro s h
  refine (hm s (i.inside h)).imp (fun _ _ ht => ht) ?_
  rintro halt t ⟨ht, cause⟩
  exact i.halted h ht.toAdvanced cause

theorem Keeps.bind {m : Run β} {f : β → Run α} (hm : Keeps i m) (hf : ∀ b, Keeps i (f b)) :
    Keeps i (m >>= f) := by
  intro s h
  rw [ends_bind]
  refine (hm s h).imp_done fun b t hst => ?_
  exact (hf b t (i.advanced h hst.toAdvanced)).imp_done fun _ u htu => hst.trans htu

theorem Keeps.operational (i : Invariant setting) : Operational setting fun _ m => Keeps i m where
  pure _ := Settles.pure.keeps
  bind := .bind
  get := (Settles.operational setting).get.keeps
  log event := (Settles.log event).keeps
  eval term := (Settles.eval term).keeps
  ofExcept hx := ((Settles.operational setting).ofExcept hx).keeps
  assertionFailed message := ((Settles.operational setting).assertionFailed message).keeps
  write id value := (Settles.write id value).keeps
  merge fields := ((Settles.operational setting).merge fields).keeps
  read hf := (Settles.read hf.reads).keeps

/-- Running on from a balanced state. -/
theorem Keeps.after {m : Run α} (hm : Keeps i m) {s t : State} (h : i.before s)
    (hst : Balanced s t) : Ends m t (fun _ u => Balanced s u) i.halts :=
  (hm t (i.advanced h hst.toAdvanced)).imp_done fun _ _ htu => hst.trans htu

theorem Keeps.next {m : Run α} (hm : Keeps i m) {s t : State} {a : α} (h : i.before s)
    (ht : m s = .ok a t) : i.before t :=
  i.advanced h ((hm s h).of_ok ht).toAdvanced

/-- The invariant does not see the records, the byte order and the log. -/
theorem Invariant.still (i : Invariant setting) {s t : State} (h : i.before s)
    (data : t.cursor.data = s.cursor.data) (offset : t.cursor.offset = s.cursor.offset)
    (regions : t.regions = s.regions) (depth : t.depth = s.depth) : i.before t := by
  have inside : s.cursor.offset ≤ s.cursor.data.length := i.inside h
  refine i.advanced h ⟨data, Nat.le_of_eq offset.symm, ?_, regions, depth⟩
  rw [Cursor.length, data, offset]
  exact inside

namespace Block

/-! ### Levels and scopes -/

/-- A level keeps `i` when its body keeps an invariant that `i` passes on to it. -/
theorem nested_keeps_of {j : Invariant setting} {body : Run Unit}
    (hdeeper : ∀ s, i.before s → ¬ TooDeep setting s → j.before { s with depth := s.depth + 1 })
    (hhalts : ∀ halt t, j.halts halt t → i.halts halt t) (hbody : Keeps j body) :
    Keeps i (nested setting body) := by
  intro s h
  rw [ends_nested]
  refine ⟨i.tooDeep h, fun deep => (hbody _ (hdeeper s h deep)).imp (fun _ t ht => ?_) hhalts⟩
  exact ⟨⟨ht.data, ht.forward, ht.inside, ht.regions, by simp [ht.depth]⟩,
    ht.order, ht.height, ht.frames⟩

theorem nested_keeps {body : Run Unit} (hbody : Keeps i body) : Keeps i (nested setting body) :=
  nested_keeps_of (fun _ => i.deeper) (fun _ _ h => h) hbody

/-- The innermost scope can be closed when as many are open as right after it was opened. -/
theorem pop_of_height {a b : Scopes} (h : b.inner.length = a.push.inner.length) :
    ∃ r rest, b.inner = r :: rest ∧ rest.length = a.inner.length ∧
      b.pop? = some (r, { b with inner := rest }) := by
  cases hb : b.inner with
  | nil => simp [hb, Scopes.push] at h
  | cons r rest => exact ⟨r, rest, rfl, by simpa [hb, Scopes.push] using h, by simp [Scopes.pop?, hb]⟩

theorem inScope_keeps {body : Run Unit} {after : Run α} (hbody : Keeps i body)
    (hafter : Keeps i after) : Keeps i (inScope body after) := by
  intro s h
  have h' : i.before { s with scopes := s.scopes.push } := i.still h rfl rfl rfl rfl
  simp only [inScope, ends_bind, Run.ends_mapScopes]
  refine (hbody _ h').imp_done fun _ t ht => (hafter.after h' ht).imp_done fun a u hu => ?_
  obtain ⟨r, rest, -, hrest, hpop⟩ := pop_of_height hu.height
  rw [Run.ends_popScope hpop]
  exact ⟨⟨hu.data, hu.forward, hu.inside, hu.regions, hu.depth⟩, hu.order, hrest, hu.frames⟩

theorem pushItem_keeps (id : String) (item : Record) : Keeps i (pushItem id item) :=
  (Settles.mapScopes fun s => s.mapTarget_shape _).keeps

theorem listItem_keeps {body : Run Unit} (hbody : Keeps i body) (id : String)
    (stopWhen emitWhen : Option Term) :
    Keeps i (listItem setting id stopWhen emitWhen body) := by
  have op := Keeps.operational i
  have conditions : Keeps i (do
      let stop ← condition setting false stopWhen
      let emit ← condition setting true emitWhen
      return (stop, emit)) :=
    (op.condition false stopWhen).bind fun _ => (op.condition true emitWhen).bind fun _ => op.pure _
  refine (inScope_keeps hbody conditions).bind fun ((stop, emit), item) => ?_
  dsimp only
  split
  · exact (pushItem_keeps id item).bind fun _ => op.pure stop
  · exact op.pure stop

theorem regionItem_keeps {body : Run Unit} (hbody : Keeps i body) (id : String) :
    Keeps i (regionItem id body) :=
  (inScope_keeps hbody Settles.pure.keeps).bind fun (_, item) => pushItem_keeps id item

/-! ### Loops -/

theorem counted_keeps {item : Run Bool} (hitem : Keeps i item) (n : Nat) :
    Keeps i (counted item n) := by
  induction n with
  | zero => exact Settles.pure.keeps
  | succ n ih =>
    refine hitem.bind fun last => ?_
    split
    · exact Settles.pure.keeps
    · exact ih

/-- An item that does not end the list consumes a byte, so the fuel lasts to the end of the
input. -/
theorem uncounted_keeps {item : Run Bool} (hitem : Keeps i item) (toEnd : Bool) (fuel : Nat)
    {s : State} (h : i.before s) (enough : s.cursor.remaining < fuel) :
    Ends (uncounted toEnd item fuel) s (fun _ t => Balanced s t) i.halts := by
  induction fuel generalizing s with
  | zero => exact absurd enough (Nat.not_lt_zero _)
  | succ fuel ih =>
    unfold uncounted
    rw [ends_bind, ends_atRegionEnd]
    split
    · exact .refl (i.inside h)
    · simp only [ends_bind, Run.ends_offset]
      refine (hitem s h).imp_done fun last t ht => ?_
      split
      · exact ht
      · rw [ends_bind, Run.ends_offset]
        split
        · exact ht.trans (.log ht.inside _)
        · next moved =>
          have less := ht.remaining_lt moved
          exact (ih (i.advanced h ht.toAdvanced) (by omega)).imp_done fun _ _ hu => ht.trans hu

theorem runList_keeps {body : Run Unit} (hbody : Keeps i body) (id : String)
    (count stopWhen emitWhen : Option Term) :
    Keeps i (runList setting id count stopWhen emitWhen body) := by
  have hitem := listItem_keeps hbody id stopWhen emitWhen
  have op := Keeps.operational i
  refine (op.evalLimit count).bind fun count => op.offset.bind fun _ => (op.log _).bind fun _ =>
    (op.write id _).bind fun _ => ?_
  cases count with
  | some n => exact counted_keeps hitem n
  | none =>
    intro s h
    rw [ends_bind, Run.ends_cursor]
    exact uncounted_keeps hitem _ _ h (Nat.lt_succ_self _)

/-- The fuel lasts to the end of the region, for the same reason. The items may read on from
there, and the last one may even end before it. -/
theorem fill_keeps {item : Run Unit} (hitem : Keeps i item) (stop fuel : Nat) {s : State}
    (h : i.before s) (enough : stop - s.cursor.offset < fuel) :
    Ends (fill stop item fuel) s (fun _ t => Balanced s t) i.halts := by
  induction fuel generalizing s with
  | zero => exact absurd enough (Nat.not_lt_zero _)
  | succ fuel ih =>
    unfold fill
    rw [ends_bind, Run.ends_offset]
    split
    · rw [ends_bind]
      refine (hitem s h).imp_done fun _ t ht => ?_
      rw [ends_bind, Run.ends_offset]
      split
      · exact ht.trans (.log ht.inside _)
      · next moved =>
        have forward := ht.forward
        exact (ih (i.advanced h ht.toAdvanced) (by omega)).imp_done fun _ _ hu => ht.trans hu
    · exact .refl (i.inside h)

/-- The clamp at the end of a region never goes back to before its start. -/
theorem closed_balanced {id : String} {stop : Nat} {s t : State} (hstart : s.cursor.offset ≤ stop)
    (hstop : stop ≤ s.cursor.length) (ht : Balanced (opened id stop s) t) :
    Balanced s (closed s.cursor.offset stop t) := by
  have length : t.cursor.length = s.cursor.length := congrArg List.length ht.data
  have height : t.scopes.inner.length = s.scopes.inner.length :=
    ht.height.trans (s.scopes.mapTarget_shape _).1
  have frames : t.scopes.frames = s.scopes.frames :=
    ht.frames.trans (s.scopes.mapTarget_shape _).2
  refine ⟨⟨ht.data, ?_, ?_, ?_, ht.depth⟩, ht.order, height, frames⟩
  · simp only [closed, Cursor.seek]
    omega
  · exact Nat.min_le_right _ _
  · simp [closed, ht.regions, opened]

theorem start_le_regionStop {s : State} (h : s.Inside) (n : Nat) :
    s.cursor.offset ≤ regionStop s n := by
  simp only [regionStop, State.Inside] at *
  omega

/-- The state in which the items of a region start has the invariant. -/
theorem opened_before {id : String} {s : State} (h : i.before s) (n : Nat) :
    i.before (opened id (regionStop s n) s) := by
  have written : i.before { opened id (regionStop s n) s with regions := s.regions } :=
    i.still h rfl rfl rfl rfl
  exact i.opened written (start_le_regionStop (i.inside h) n) (Nat.min_le_right _ _)

theorem runBounded_keeps {body : Run Unit} (hbody : Keeps i body) (id : String) (length : Term) :
    Keeps i (runBounded setting id length body) := by
  intro s h
  rw [ends_runBounded]
  refine ((Keeps.operational i).evalLength length s h).imp_done fun n t ht => ?_
  have hopen : i.before (opened id (regionStop t n) t) :=
    opened_before (i.advanced h ht.toAdvanced) n
  refine (fill_keeps (regionItem_keeps hbody id) _ _ hopen (Nat.lt_succ_self _)).imp_done ?_
  exact fun _ u hu => ht.trans (closed_balanced (start_le_regionStop ht.inside n)
    (Nat.min_le_right _ _) hu)

/-! ### Template calls -/

/-- The state in which the body of a template starts. -/
def called (frame : Record) (s : State) : State :=
  { s with scopes := (s.scopes.pushFrame frame).push }

/-- The scope and the arguments of a call can be closed after a balanced body. -/
theorem ends_return {frame : Record} {s t : State} {done : Unit → State → Prop}
    {halts : Halt → State → Prop} (ht : Balanced (called frame s) t) :
    ∃ fields rest, t.scopes.inner = fields :: rest ∧ rest.length = s.scopes.inner.length ∧
      (Ends (do
        let fields ← Run.popScope
        Run.popFrame
        Run.mapScopes fun s => s.mapTarget fun r => r.merge fields) t done halts ↔
      done () { t with scopes :=
        (Scopes.mk t.scopes.root rest s.scopes.frames).mapTarget fun r => r.merge fields }) := by
  obtain ⟨fields, rest, hinner, hrest, hpop⟩ := pop_of_height (a := s.scopes) ht.height
  have hframe : (Scopes.mk t.scopes.root rest t.scopes.frames).popFrame? =
      some (Scopes.mk t.scopes.root rest s.scopes.frames) := by
    simp [Scopes.popFrame?, ht.frames, called, Scopes.pushFrame, Scopes.push]
  refine ⟨fields, rest, hinner, hrest, ?_⟩
  rw [ends_bind, Run.ends_popScope hpop, ends_bind, Run.ends_popFrame hframe, Run.ends_mapScopes]

theorem runTemplate_keeps {name : String} {arguments : Arguments}
    (hcall : ∀ template, setting.schema.template? name = .ok template → Keeps i (call template)) :
    Keeps i (runTemplate setting call name arguments) := by
  intro s h
  rw [runTemplate, ends_bind, Run.ends_ofExcept]
  refine ⟨fun template htemplate => ?_, fun e he =>
    i.halted h (Balanced.refl (i.inside h)).toAdvanced (.failed (Schema.template?_fails name e he))⟩
  rw [ends_bind]
  refine ((Keeps.operational i).bindArguments name _ arguments s h).imp_done fun frame t ht => ?_
  rw [ends_bind, Run.ends_offset, ends_bind, Run.ends_log, ends_bind, Run.ends_mapScopes, ends_bind]
  have h' := i.advanced h ht.toAdvanced
  have hbody : i.before (called frame { t with log := .template name t.cursor.offset :: t.log }) :=
    i.still h' rfl rfl rfl rfl
  refine (hcall template htemplate _ hbody).imp_done fun _ u hu => ?_
  obtain ⟨fields, rest, -, hrest, hreturn⟩ := ends_return hu
  rw [hreturn]
  have shape := Scopes.mapTarget_shape (Scopes.mk u.scopes.root rest t.scopes.frames)
    fun r => r.merge fields
  exact ht.trans ⟨⟨hu.data, hu.forward, hu.inside, hu.regions, hu.depth⟩, hu.order,
    shape.1.trans hrest, shape.2⟩

/-! ### Nodes -/

theorem inOrder_keeps {body : Run Unit} (hbody : Keeps i body) (order : ByteOrder) :
    Keeps i (inOrder order body) := by
  intro s h
  have h' : i.before { s with cursor := { s.cursor with order := order } } :=
    i.still h rfl rfl rfl rfl
  simp only [inOrder, ends_bind, Run.ends_cursor, Run.ends_setOrder]
  refine (hbody _ h').imp_done fun _ t ht => ?_
  exact ⟨⟨ht.data, ht.forward, ht.inside, ht.regions, ht.depth⟩, rfl, ht.height, ht.frames⟩

/-- Every template that `nodes` can come to calls of keeps the invariant. -/
def CallsKeep (i : Invariant setting) (call : Call) (nodes : List Node) : Prop :=
  ∀ name arguments template, Occurs setting.schema nodes (.template name arguments) →
    setting.schema.template? name = .ok template → Keeps i (call template)

theorem CallsKeep.child {node child : Node} (h : CallsKeep i call [node])
    (hchild : child ∈ node.children) : CallsKeep i call [child] :=
  fun name arguments template hname => h name arguments template (hname.of_child hchild)

theorem CallsKeep.member {nodes : List Node} {node : Node} (h : CallsKeep i call nodes)
    (hnode : node ∈ nodes) : CallsKeep i call [node] :=
  fun name arguments template hname => h name arguments template (hname.of_member hnode)

theorem runAll_keeps_of {nodes : List Node}
    (hnodes : ∀ node ∈ nodes, Keeps i (runNode setting call node)) :
    Keeps i (runAll setting call nodes) := by
  induction nodes with
  | nil => exact Settles.pure.keeps
  | cons node rest ih =>
    obtain ⟨hnode, hrest⟩ := List.forall_mem_cons.mp hnodes
    exact hnode.bind fun _ => ih hrest

theorem runNode_keeps (node : Node) (hcall : CallsKeep i call [node]) :
    Keeps i (runNode setting call node) := by
  have op := Keeps.operational i
  induction node using Node.induct with
  | step node ih =>
    have block {spec : List Node} (hspec : ∀ child ∈ spec, child ∈ node.children) :
        Keeps i (run setting call spec) := by
      refine nested_keeps (runAll_keeps_of fun child hchild => ?_)
      exact ih child (hspec child hchild) (hcall.child (hspec child hchild))
    cases node with
    | action a => exact a.run_settles.keeps
    | list id items count stopWhen readUntil emitWhen =>
      exact runList_keeps (block fun _ h => h) id count _ emitWhen
    | template name arguments =>
      exact runTemplate_keeps fun template =>
        hcall name arguments template (.here (List.mem_singleton.mpr rfl))
    | branch condition spec otherwise =>
      refine (op.evalTruth condition).bind fun b => ?_
      split
      · exact block fun _ => List.mem_append_left _
      · exact block fun _ => List.mem_append_right _
    | switch on cases default =>
      rw [runNode_switch]
      refine (op.eval on).bind fun v => ?_
      dsimp only
      cases hspec : Node.chosen v.display cases default with
      | some spec => exact block fun _ => Node.mem_children_of_chosen hspec
      | none => exact op.log _
    | bounded id length spec => exact runBounded_keeps (block fun _ h => h) id length
    | withByteOrder order spec => exact inOrder_keeps (block fun _ h => h) order

/-- Blocks keep what the templates that they call keep. -/
theorem runAll_keeps {nodes : List Node} (hcall : CallsKeep i call nodes) :
    Keeps i (runAll setting call nodes) :=
  runAll_keeps_of fun node hnode => runNode_keeps node (hcall.member hnode)

theorem run_keeps {nodes : List Node} (hcall : CallsKeep i call nodes) :
    Keeps i (run setting call nodes) :=
  nested_keeps (runAll_keeps hcall)

theorem callWithin_keeps (exhausted : ∀ s, i.before s → i.halts .exhausted s) (levels : Nat)
    (template : Template) : Keeps i (callWithin setting levels template) := by
  induction levels generalizing template with
  | zero => exact exhausted
  | succ levels ih => exact run_keeps fun _ _ template _ _ => ih template

/-- Blocks keep any invariant that allows for calls that nest too deep. -/
theorem run_callWithin_keeps (exhausted : ∀ s, i.before s → i.halts .exhausted s) (levels : Nat)
    (nodes : List Node) : Keeps i (run setting (callWithin setting levels) nodes) :=
  run_keeps fun _ _ template _ _ => callWithin_keeps exhausted levels template

end Block

/-! ### Decodes -/

namespace Decoder

variable {data : List UInt8} {levels : Nat}

/-- The state in which the top-level block starts. -/
def started (setting : Setting) (data : List UInt8) : State :=
  { initial setting data with
    log := [.started data.length (order setting) setting.schema.spec.length] }

theorem started_inside : (started setting data).Inside := Nat.zero_le _

/-- After a balanced block no scope and no call is left open. -/
theorem root_of_balanced {t : State} (ht : Balanced (started setting data) t) :
    root t = .ok t.scopes.root t := by
  have hinner : t.scopes.inner = [] := List.length_eq_zero_iff.mp ht.height
  have hframes : t.scopes.frames = [] := ht.frames
  have hroot : Ends root t (fun r u => r = t.scopes.root ∧ u = t) fun _ _ => False := by
    simp [root, hinner, hframes]
  cases h : root t with
  | ok r u =>
    obtain ⟨rfl, rfl⟩ := hroot.of_ok h
    rfl
  | error halt u => exact (hroot.of_error h).elim

theorem program_keeps (hstart : i.before (started setting data))
    (hrun : Keeps i (Block.run setting (Block.callWithin setting levels) setting.schema.spec)) :
    Ends (program setting levels) (initial setting data)
      (fun record _ => ∃ t, Balanced (started setting data) t ∧ record = t.scopes.root)
      i.halts := by
  simp only [program, ends_bind, Run.ends_cursor, Run.ends_log]
  refine (hrun _ hstart).imp_done fun _ t ht => ?_
  have hroot : Ends root t (fun record u => record = t.scopes.root ∧ u = t) i.halts := by
    simp [Ends, root_of_balanced ht]
  refine hroot.imp_done ?_
  rintro _ _ ⟨rfl, rfl⟩
  exact ⟨_, ht, rfl⟩

/-- A decode that halts does so as the invariant says. -/
theorem halts_of_decode {halt : Halt} (hstart : i.before (started setting data))
    (hrun : Keeps i (Block.run setting (Block.callWithin setting levels) setting.schema.spec))
    (h : (decodeWithin levels setting data).result = .error halt) : ∃ t, i.halts halt t := by
  have hprogram := program_keeps hstart hrun
  simp only [decodeWithin, EStateM.run] at h
  split at h
  · cases h
  · next hhalt =>
    cases h
    exact ⟨_, hprogram.of_error hhalt⟩

end Decoder

end

/-- Every error has its cause. -/
def Invariant.causes (setting : Setting) (data : List UInt8) : Invariant setting where
  before s := s.cursor.data = data ∧ s.Inside
  halts halt _ := ∀ e, halt = .failed e → Cause setting data e
  inside h := h.2
  advanced h hst := ⟨hst.data.trans h.1, hst.inside⟩
  opened h _ _ := h
  deeper h _ := h
  halted h _ caused := by
    rintro _ rfl
    cases caused with
    | failed cause => exact h.1 ▸ cause
  tooDeep _ deep := by
    rintro _ ⟨⟩
    exact .depthExceeded deep.1

namespace Decoder

/-- Whatever the input and the schema, a decode fails for a cause. -/
theorem cause_of_failed {setting : Setting} {data : List UInt8} {levels : Nat} {e : Error}
    (h : (decodeWithin levels setting data).result = .error (.failed e)) : Cause setting data e := by
  have hstart : (Invariant.causes setting data).before (started setting data) :=
    ⟨rfl, started_inside⟩
  have hrun := Block.run_callWithin_keeps (i := Invariant.causes setting data) (by rintro _ _ _ ⟨⟩)
    levels setting.schema.spec
  obtain ⟨t, ht⟩ := halts_of_decode hstart hrun h
  exact ht e rfl

end Decoder

theorem Block.run_balanced {setting : Setting} {levels : Nat} {nodes : List Node} {s t : State}
    (h : s.Inside) (hrun : Block.run setting (Block.callWithin setting levels) nodes s = .ok () t) :
    Balanced s t := by
  have hrun' := Block.run_callWithin_keeps (i := Invariant.causes setting s.cursor.data)
    (by rintro _ _ _ ⟨⟩) levels nodes
  exact (hrun' s ⟨rfl, h⟩).of_ok hrun

/-- A block that succeeds leaves every stack, the byte order and the depth as it found them, and the
cursor between where it was and the end of the input. So a decode always gets its root record back,
and an internal error can only be one that a registered function gave. -/
theorem blocks_balanced (setting : Setting) (levels : Nat) :
    (∀ nodes s t, s.cursor.offset ≤ s.cursor.length →
      Block.run setting (Block.callWithin setting levels) nodes s = .ok () t →
      t.scopes.inner.length = s.scopes.inner.length ∧ t.scopes.frames = s.scopes.frames ∧
        t.regions = s.regions ∧ t.cursor.order = s.cursor.order ∧ t.depth = s.depth ∧
        t.cursor.data = s.cursor.data ∧ s.cursor.offset ≤ t.cursor.offset ∧
        t.cursor.offset ≤ s.cursor.length) ∧
    (∀ data t, Block.run setting (Block.callWithin setting levels) setting.schema.spec
        (Decoder.started setting data) = .ok () t → Decoder.root t = .ok t.scopes.root t) ∧
    ∀ data message,
      (Decoder.decodeWithin levels setting data).result = .error (.failed (.internal message)) →
      ∃ name f arguments, setting.functions.get? name = some f ∧
        f arguments = .error (.internal message) := by
  refine ⟨fun nodes s t h hrun => ?_, fun data t hrun => ?_, fun data message h => ?_⟩
  · have ht := Block.run_balanced h hrun
    have length : t.cursor.length = s.cursor.length := congrArg List.length ht.data
    exact ⟨ht.height, ht.frames, ht.regions, ht.order, ht.depth, ht.data, ht.forward,
      length ▸ ht.inside⟩
  · exact Decoder.root_of_balanced (Block.run_balanced Decoder.started_inside hrun)
  · exact (Decoder.cause_of_failed h).of_internal

namespace DecodeSample

/-- Fails inside when it is called on nothing. -/
def check : Function
  | [.undefined] => .error (.internal "no byte")
  | _ => .ok (.bool true)

/-- Checks the first byte; the template `pair` reads two bytes in a region of fewer. -/
def setting : Setting where
  schema := {
    byteOrder := .little
    templates := [("pair", ⟨["n"], [.bounded "items" (.ref "n") [.action (.uint "x" (.uint 2))]]⟩)]
    spec := [
      .action (.bytesLenient "b" (.uint 1)),
      .action (.bind "ok" (.call [.ref "check", .ref "b.0"]))] }
  config := .default
  functions := [("check", check)]

def overrun : List Node :=
  [.withByteOrder .big [.template "pair" (.positional [.uint 1])], .action (.skip (.uint 1))]

/-- In the middle of an input, with everything open once. -/
def inside : State where
  cursor := ⟨[1, 2, 3, 4], 1, .little⟩
  scopes := ⟨.empty, [.empty], [.empty]⟩
  regions := [⟨1, 4⟩]
  depth := 1
  log := []

end DecodeSample

open DecodeSample in
theorem blocks_balanced_overrun :
    (∃ t, Block.run setting (Block.callWithin setting 1) overrun inside = .ok () t ∧
      t.scopes.inner.length = 1 ∧ t.regions = [⟨1, 4⟩] ∧ t.cursor.offset ≤ 4) ∧
    (∃ t, Block.run setting (Block.callWithin setting 1) setting.schema.spec
      (Decoder.started setting [7]) = .ok () t ∧ Decoder.root t = .ok t.scopes.root t) ∧
    (Decoder.decodeWithin 1 setting []).result = .error (.failed (.internal "no byte")) ∧
    ∃ name f arguments, setting.functions.get? name = some f ∧
      f arguments = .error (.internal "no byte") := by
  obtain ⟨block, root, internal⟩ := blocks_balanced setting 1
  obtain ⟨_, t, ht⟩ : ∃ a t, Block.run setting (Block.callWithin setting 1) overrun inside =
    .ok a t := exists_of_succeeds (by decide +kernel)
  obtain ⟨_, u, hu⟩ : ∃ a t, Block.run setting (Block.callWithin setting 1) setting.schema.spec
    (Decoder.started setting [7]) = .ok a t := exists_of_succeeds (by decide +kernel)
  have failed : (Decoder.decodeWithin 1 setting []).result =
    .error (.failed (.internal "no byte")) := rfl
  have ⟨height, _, regions, _, _, _, _, offset⟩ := block overrun inside t (by decide) ht
  exact ⟨⟨t, ht, height, regions, offset⟩, ⟨u, hu, root [7] u hu⟩, failed, internal [] _ failed⟩

end ByteSchema
