import ByteSchema.Proofs.Decode.Nodes
import ByteSchema.Proofs.Decode.Operations

/-!
# What passes from parts to blocks

Blocks are put together from operations, in sequence and inside scopes, regions and calls. A
property of programs is `Compositional` when every composition passes it on. All the rest of a block
is recursion and loops, so `run_callWithin` has the property of any block as soon as the actions in
it have it.
-/

namespace ByteSchema

/-- `P` holds of all that loops do besides their items, and passes on to sequences. -/
structure Looping (P : (α : Type) → Run α → Prop) : Prop where
  pure {α : Type} (a : α) : P α (pure a)
  bind {α β : Type} {m : Run β} {f : β → Run α} : P β m → (∀ b, P α (f b)) → P α (m >>= f)
  offset : P Nat Run.offset
  atRegionEnd : P Bool Block.atRegionEnd
  stalled (node : String) (start : Nat) : P Unit (Run.report (.stalled node start))
  exhausted : P Unit (throw .exhausted)

namespace Looping

variable {P : (α : Type) → Run α → Prop}

theorem counted (h : Looping P) {item : Run Bool} (hitem : P Bool item) (n : Nat) :
    P Unit (Block.counted item n) := by
  induction n with
  | zero => exact h.pure ()
  | succ n ih =>
    refine h.bind hitem fun last => ?_
    split
    · exact h.pure ()
    · exact ih

theorem stalls (h : Looping P) {loop : Run Unit} (hloop : P Unit loop) (node : String)
    (start : Nat) : P Unit (do
      if (← Run.offset) = start then Run.report (.stalled node start) else loop) := by
  refine h.bind h.offset fun offset => ?_
  split
  · exact h.stalled node start
  · exact hloop

theorem uncounted (h : Looping P) {item : Run Bool} (hitem : P Bool item) (toEnd : Bool)
    (fuel : Nat) : P Unit (Block.uncounted toEnd item fuel) := by
  induction fuel with
  | zero => exact h.exhausted
  | succ fuel ih =>
    refine h.bind h.atRegionEnd fun ended => ?_
    split
    · exact h.pure ()
    · refine h.bind h.offset fun start => h.bind hitem fun last => ?_
      split
      · exact h.pure ()
      · exact h.stalls ih "list" start

theorem fill (h : Looping P) {item : Run Unit} (hitem : P Unit item) (stop fuel : Nat) :
    P Unit (Block.fill stop item fuel) := by
  induction fuel with
  | zero => exact h.exhausted
  | succ fuel ih =>
    refine h.bind h.offset fun start => ?_
    split
    · exact h.bind hitem fun _ => h.stalls ih "bounded" start
    · exact h.pure ()

end Looping

/-- `P` holds of what blocks are put together from, and passes on to what is put together. -/
structure Compositional (setting : Setting) (P : (α : Type) → Run α → Prop) : Prop
    extends Operational setting P where
  exhausted : P Unit (throw .exhausted)
  unknownTemplate (name : String) : P Unit (Run.fail (.unknownTemplate name))
  pushItem (id : String) (item : Record) : P Unit (Block.pushItem id item)
  setOrder (order : ByteOrder) : P Unit (Run.setOrder order)
  opened (id : String) (stop : Nat) : P Unit (modify (Block.opened id stop))
  closed (start stop : Nat) : P Unit (modify (Block.closed start stop))
  nested {body : Run Unit} : P Unit body → P Unit (Block.nested setting body)
  inScope {α : Type} {body : Run Unit} {after : Run α} : P Unit body → P α after →
    P (α × Record) (Block.inScope body after)
  enterCall {body : Run Unit} (frame : Record) : P Unit body → P Unit (Block.enterCall body frame)

namespace Compositional

variable {setting : Setting} {P : (α : Type) → Run α → Prop} {call : Call}

/-! ### Lists and regions -/

theorem atRegionEnd (h : Compositional setting P) : P Bool Block.atRegionEnd := by
  refine h.bind h.get fun s => ?_
  split <;> exact h.pure _

theorem listItem (h : Compositional setting P) {body : Run Unit} (hbody : P Unit body)
    (id : String) (stopWhen emitWhen : Option Term) :
    P Bool (Block.listItem setting id stopWhen emitWhen body) := by
  have conditions : P (Bool × Bool) (do
      let stop ← Block.condition setting false stopWhen
      let emit ← Block.condition setting true emitWhen
      return (stop, emit)) :=
    h.bind (h.condition false stopWhen) fun _ =>
      h.bind (h.condition true emitWhen) fun _ => h.pure _
  refine h.bind (h.inScope hbody conditions) fun ((stop, emit), item) => ?_
  dsimp only
  split
  · exact h.bind (h.pushItem id item) fun _ => h.pure stop
  · exact h.pure stop

theorem looping (h : Compositional setting P) : Looping P where
  pure := h.pure
  bind := h.bind
  offset := h.offset
  atRegionEnd := h.atRegionEnd
  stalled _ _ := h.log _
  exhausted := h.exhausted

theorem runList (h : Compositional setting P) {body : Run Unit} (hbody : P Unit body)
    (id : String) (count stopWhen emitWhen : Option Term) :
    P Unit (Block.runList setting id count stopWhen emitWhen body) := by
  have hitem := h.listItem hbody id stopWhen emitWhen
  refine h.bind (h.evalLimit count) fun count => h.bind h.offset fun start =>
    h.bind (h.log _) fun _ => h.bind (h.write id _) fun _ => ?_
  cases count with
  | some n => exact h.looping.counted hitem n
  | none => exact h.bind h.cursor fun c => h.looping.uncounted hitem _ _

theorem runBounded (h : Compositional setting P) {body : Run Unit} (hbody : P Unit body)
    (id : String) (length : Term) : P Unit (Block.runBounded setting id length body) := by
  have hitem : P Unit (Block.regionItem id body) :=
    h.bind (h.inScope hbody (h.pure ())) fun (_, item) => h.pushItem id item
  have region (n : Nat) : P Unit (Block.inRegion id body n) :=
    h.bind h.get fun s =>
      let stop := Block.regionStop s n
      h.bind (h.opened id stop) fun _ =>
        h.bind (h.looping.fill hitem stop (stop - s.cursor.offset + 1)) fun _ =>
          h.closed s.cursor.offset stop
  rw [Block.runBounded_eq]
  exact h.bind (h.evalLength length) region

/-! ### Template calls -/

theorem runTemplate (h : Compositional setting P) {name : String} {arguments : Arguments}
    (hcall : ∀ template, setting.schema.template? name = .ok template → P Unit (call template)) :
    P Unit (Block.runTemplate setting call name arguments) := by
  have invoked (template : Template) (found : setting.schema.template? name = .ok template) :
      P Unit (Block.invoke setting name template.parameters arguments (call template)) :=
    h.bind (h.bindArguments name template.parameters arguments) fun frame =>
      h.bind h.offset fun _ => h.bind (h.log _) fun _ => h.enterCall frame (hcall template found)
  rw [Block.runTemplate_eq]
  cases found : setting.schema.template? name with
  | ok template => exact invoked template found
  | error e =>
    unfold Schema.template? at found
    split at found
    · cases found
    · cases found
      exact h.unknownTemplate name

/-! ### Nodes -/

theorem inOrder (h : Compositional setting P) {body : Run Unit} (hbody : P Unit body)
    (order : ByteOrder) : P Unit (Block.inOrder order body) :=
  h.bind h.cursor fun c => h.bind (h.setOrder order) fun _ =>
    h.bind hbody fun _ => h.setOrder c.order

/-- The actions that `nodes` can come to, and the templates that they call, have the property. -/
structure Parts (P : (α : Type) → Run α → Prop) (setting : Setting) (call : Call)
    (nodes : List Node) : Prop where
  actions : ∀ a, Occurs setting.schema nodes (.action a) → P Unit (a.run setting)
  calls : ∀ name arguments template, Occurs setting.schema nodes (.template name arguments) →
    setting.schema.template? name = .ok template → P Unit (call template)

theorem Parts.of_occurs {nodes inner : List Node} (h : Parts P setting call nodes)
    (hinner : ∀ {node}, Occurs setting.schema inner node → Occurs setting.schema nodes node) :
    Parts P setting call inner where
  actions a ha := h.actions a (hinner ha)
  calls name arguments template hname := h.calls name arguments template (hinner hname)

theorem runAll_of (h : Compositional setting P) {nodes : List Node}
    (hnodes : ∀ node ∈ nodes, P Unit (Block.runNode setting call node)) :
    P Unit (Block.runAll setting call nodes) := by
  induction nodes with
  | nil => exact h.pure ()
  | cons node rest ih =>
    obtain ⟨hnode, hrest⟩ := List.forall_mem_cons.mp hnodes
    exact h.bind hnode fun _ => ih hrest

theorem runNode (h : Compositional setting P) (node : Node) (parts : Parts P setting call [node]) :
    P Unit (Block.runNode setting call node) := by
  induction node using Node.induct with
  | step node ih =>
    have block {spec : List Node} (hspec : ∀ child ∈ spec, child ∈ node.children) :
        P Unit (Block.run setting call spec) :=
      h.nested (h.runAll_of fun child hchild =>
        ih child (hspec child hchild) (parts.of_occurs (.of_child (hspec child hchild))))
    have self : Occurs setting.schema [node] node := .here (List.mem_singleton.mpr rfl)
    cases node with
    | action a => exact parts.actions a self
    | list id items count stopWhen readUntil emitWhen =>
      exact h.runList (block fun _ h => h) id count _ emitWhen
    | template name arguments =>
      exact h.runTemplate fun template => parts.calls name arguments template self
    | branch condition spec otherwise =>
      refine h.bind (h.evalTruth condition) fun b => ?_
      split
      · exact block fun _ => List.mem_append_left _
      · exact block fun _ => List.mem_append_right _
    | switch on cases default =>
      rw [Block.runNode_switch]
      refine h.bind (h.eval on) fun v => ?_
      dsimp only
      cases hspec : Node.chosen v.display cases default with
      | some spec => exact block fun _ => Node.mem_children_of_chosen hspec
      | none => exact h.log _
    | bounded id length spec => exact h.runBounded (block fun _ h => h) id length
    | withByteOrder order spec => exact h.inOrder (block fun _ h => h) order

theorem runAll (h : Compositional setting P) {nodes : List Node}
    (parts : Parts P setting call nodes) : P Unit (Block.runAll setting call nodes) :=
  h.runAll_of fun node hnode => h.runNode node (parts.of_occurs (.of_member hnode))

theorem parts_callWithin (h : Compositional setting P) (levels : Nat) {nodes : List Node}
    (hactions : ∀ a, Occurs setting.schema nodes (.action a) → P Unit (a.run setting)) :
    Parts P setting (Block.callWithin setting levels) nodes where
  actions := hactions
  calls name arguments template hname htemplate := by
    -- Induction on the levels: what the called template comes to, its caller comes to as well.
    induction levels generalizing nodes name arguments template with
    | zero => exact h.exhausted
    | succ levels ih =>
      have inner a (ha : Occurs setting.schema template.spec (.action a)) :
          P Unit (a.run setting) :=
        hactions a (ha.trans fun _ hnode => .called hname htemplate hnode)
      exact h.nested (h.runAll ⟨inner, ih inner⟩)

/-- A block has the property when all the actions that it can come to have it. -/
theorem run_callWithin (h : Compositional setting P) (levels : Nat) {nodes : List Node}
    (hactions : ∀ a, Occurs setting.schema nodes (.action a) → P Unit (a.run setting)) :
    P Unit (Block.run setting (Block.callWithin setting levels) nodes) :=
  h.nested (h.runAll (h.parts_callWithin levels hactions))

end Compositional

end ByteSchema
