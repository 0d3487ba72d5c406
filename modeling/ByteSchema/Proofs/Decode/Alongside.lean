import ByteSchema.Proofs.Decode.Lockstep
import ByteSchema.Proofs.Decode.Merged
import ByteSchema.Proofs.Decode.Schemas

/-!
# The same nodes in a call and in place of it

`Relates` runs two programs side by side, with a relation of states before and one after. In a call
at top level and in place of that call, nodes do the same when they call no template and refer to
fields by name: `runAll_inlines`.
-/

namespace ByteSchema

/-! ### Programs side by side -/

/-- The ends of two runs: with the same result, in states with `after`, or at the same halt after the
same reports. -/
inductive Meets {α : Type} (after : State → State → Prop) :
    EStateM.Result Halt State α → EStateM.Result Halt State α → Prop where
  | ok {a : α} {t t' : State} : after t t' → Meets after (.ok a t) (.ok a t')
  | error {halt : Halt} {t t' : State} : t'.diagnostics = t.diagnostics →
      Meets after (.error halt t) (.error halt t')

/-- From states with `before`, the runs of both programs meet. -/
def Relates {α : Type} (before : State → State → Prop) (m m' : Run α)
    (after : State → State → Prop) : Prop :=
  ∀ s s', before s s' → Meets after (m s) (m' s')

theorem Relates.bind {α β : Type} {before between after : State → State → Prop} {m m' : Run β}
    {f f' : β → Run α} (hm : Relates before m m' between)
    (hf : ∀ b, Relates between (f b) (f' b) after) : Relates before (m >>= f) (m' >>= f') after := by
  intro s s' hs
  have ends := hm s s' hs
  rw [run_bind, run_bind]
  generalize m s = r, m' s' = r' at ends
  cases ends with
  | ok h => exact hf _ _ _ h
  | error h => exact .error h

/-- A run in a call at top level, and one of the same nodes in place of the call. -/
structure State.Alongside (height : Nat) (held : List String) (s s' : State) : Prop where
  cursor : s'.cursor = s.cursor
  regions : s'.regions = s.regions
  diagnostics : s'.diagnostics = s.diagnostics
  scopes : Scopes.Merged height held s.scopes s'.scopes

/-- The program does the same in a call at top level as in place of the call. -/
def Inlines {α : Type} (height : Nat) (held : List String) (m : Run α) : Prop :=
  Relates (State.Alongside height held) m m (State.Alongside height held)

namespace Inlines

variable {α β : Type} {setting : Setting} {height : Nat} {held : List String}

theorem pure {a : α} : Inlines height held (pure a : Run α) := fun _ _ hs => .ok hs

theorem throw {halt : Halt} : Inlines height held (throw halt : Run α) :=
  fun _ _ hs => .error hs.diagnostics

theorem bind {m : Run β} {f : β → Run α} (hm : Inlines height held m)
    (hf : ∀ b, Inlines height held (f b)) : Inlines height held (m >>= f) :=
  Relates.bind hm hf

theorem ofExcept {x : Except Error α} : Inlines height held (Run.ofExcept x) := by
  cases x with
  | ok a => exact .pure
  | error e => exact .throw

theorem log (event : Event) : Inlines height held (Run.log event) := by
  intro s s' hs
  refine .ok { hs with diagnostics := ?_ }
  show Log.diagnostics (event :: s'.log) = Log.diagnostics (event :: s.log)
  have same : s'.log.diagnostics = s.log.diagnostics := hs.diagnostics
  rw [Log.diagnostics_cons, Log.diagnostics_cons, same]

theorem cursor : Inlines height held Run.cursor := by
  intro s s' hs
  show Meets _ (.ok s.cursor s) (.ok s'.cursor s')
  rw [hs.cursor]
  exact .ok hs

theorem offset : Inlines height held Run.offset := cursor.bind fun _ => .pure

theorem setCursor (c : Cursor) : Inlines height held (Run.setCursor c) :=
  fun _ _ hs => .ok { hs with cursor := rfl }

theorem setOrder (order : ByteOrder) : Inlines height held (Run.setOrder order) :=
  fun _ _ hs => .ok { hs with
    cursor := congrArg (fun c : Cursor => { c with order := order }) hs.cursor }

theorem read (f : Cursor → Except Error (α × Cursor)) : Inlines height held (Run.read f) := by
  intro s s' hs
  rw [Run.read_apply, Run.read_apply, hs.cursor]
  cases f s.cursor with
  | ok r => exact .ok { hs with cursor := rfl }
  | error e => exact .error hs.diagnostics

theorem write (id : String) (value : Value) : Inlines height held (Run.write id value) :=
  fun _ _ hs => .ok { hs with scopes := hs.scopes.write id value }

theorem merge (fields : Record) :
    Inlines height held (Run.mapScopes fun s => s.mapTarget fun r => r.merge fields) :=
  fun _ _ hs => .ok { hs with
    scopes := hs.scopes.mapTarget fun _ _ single _ => Record.through_merge single fields }

theorem assign (id : String) (value : Value) :
    Inlines height held (Run.mapScopes fun s => s.assign id value) :=
  fun _ _ hs => .ok { hs with scopes := hs.scopes.assign id value }

/-! ### Terms -/

theorem eval {term : Term} (plain : term.isPlain = true) :
    Inlines height held (Run.eval setting term) := by
  intro s s' hs
  have same : (Run.env setting s).Holds s'.scopes.resolve term.references := fun path hpath =>
    hs.scopes.resolve (List.all_eq_true.mp plain path hpath)
  -- The environments differ only in what they resolve, and not at the references.
  have env : Run.env setting s' = { Run.env setting s with resolve := s'.scopes.resolve } := by
    simp only [Run.env, hs.cursor]
  have seen : evaluate (Run.env setting s') term = evaluate (Run.env setting s) term := by
    rw [env, evaluate_congr term same]
  have calls (name : String) (arguments : List Value) :
      Follows (Pairing.same setting).termPace ((Run.env setting s).call name arguments)
        ((Run.env setting s).call name arguments) :=
    Env.call_follows rfl rfl (fun _ _ _ _ _ same => congrArg (· ++ _) same) name arguments
  have pairs := (evaluate_follows ⟨rfl, calls⟩ term).pairs s.log s'.log hs.diagnostics
  unfold Run.eval
  rw [seen]
  generalize evaluate (Run.env setting s) term s.log = r,
    evaluate (Run.env setting s) term s'.log = r' at pairs
  cases pairs with
  | ok h => exact .ok { hs with diagnostics := h }
  | error h => exact .error h
  | partedOk never | partedError never => exact False.elim never

/-! ### Actions and loops -/

theorem operationalOn (setting : Setting) (height : Nat) (held : List String) :
    OperationalOn setting (fun term => term.isPlain = true)
      fun _ m => Inlines height held m where
  pure _ := .pure
  bind := .bind
  cursor := .cursor
  regionStart := by
    intro s s' hs
    rw [Action.basisOffset_scope, Action.basisOffset_scope, hs.regions]
    exact .ok hs
  log := .log
  eval := .eval
  ofExcept _ := .ofExcept
  assertionFailed _ := offset.bind fun _ => .throw
  write := .write
  merge := .merge
  read _ := .read _

theorem looping (height : Nat) (held : List String) :
    Looping fun _ m => Inlines height held m where
  pure _ := .pure
  bind := .bind
  offset := .offset
  atRegionEnd := by
    intro s s' hs
    have stop : Block.regionEnd s' = Block.regionEnd s := by
      rw [Block.regionEnd, Block.regionEnd, hs.regions, hs.cursor]
    rw [Block.atRegionEnd_apply, Block.atRegionEnd_apply, stop, hs.cursor]
    exact .ok hs
  stalled _ _ := .log _
  exhausted := .throw

theorem action {a : Action} (plain : ∀ term ∈ a.terms, term.isPlain = true) :
    Inlines height held (a.run setting) :=
  (operationalOn setting height held).action a plain (fun _ _ _ _ => .read _)
    (fun id _ _ v => .assign id v) fun multiple basis h => by
      obtain ⟨hmultiple, hbasis⟩ := List.forall_mem_cons.mp (h ▸ plain)
      exact (operationalOn setting height held).runAlign .throw hmultiple hbasis

end Inlines

/-! ### Blocks -/

namespace Block

variable {setting : Setting} {call : Call} {height : Nat} {held : List String} {body : Run Unit}

theorem not_tooDeep (unlimited : setting.config.maxDepth = 0) (s : State) :
    ¬ TooDeep setting s := by
  rintro ⟨limited, -⟩
  omega

theorem nested_inlines (unlimited : setting.config.maxDepth = 0)
    (h : Inlines height held body) : Inlines height held (nested setting body) := by
  have entered : Inlines height held (enter setting) := by
    intro s s' hs
    rw [enter_of_not_tooDeep (not_tooDeep unlimited s),
      enter_of_not_tooDeep (not_tooDeep unlimited s')]
    exact .ok { hs with }
  exact entered.bind fun _ => h.bind fun _ => fun _ _ hs => .ok { hs with }

theorem popScope_relates : Relates (State.Alongside (height + 1) held) Run.popScope Run.popScope
    (State.Alongside height held) := by
  intro s s' hs
  have popped := hs.scopes.pop?
  rw [Run.popScope_apply, Run.popScope_apply]
  generalize s.scopes.pop? = x, s'.scopes.pop? = y at popped
  cases popped with
  | none => exact .error hs.diagnostics
  | @some x y h =>
    obtain ⟨r, scopes⟩ := x
    obtain ⟨r', scopes'⟩ := y
    obtain ⟨rfl, hscopes⟩ := h
    exact .ok { hs with scopes := hscopes }

theorem inScope_inlines {α : Type} {after : Run α} (h : Inlines (height + 1) held body)
    (hafter : Inlines (height + 1) held after) : Inlines height held (inScope body after) := by
  have pushed : Relates (State.Alongside height held) (Run.mapScopes Scopes.push)
      (Run.mapScopes Scopes.push) (State.Alongside (height + 1) held) :=
    fun _ _ hs => .ok { hs with scopes := hs.scopes.push }
  refine pushed.bind fun _ => Relates.bind h fun _ => Relates.bind hafter fun a => ?_
  exact popScope_relates.bind fun r => Inlines.pure

/-! ### Lists -/

open Scopes.Merged (listing)

variable {id : String}

theorem pushItem_inlines (item : Record) :
    Inlines height (listing height id held) (pushItem id item) :=
  fun _ _ hs => .ok { hs with scopes := hs.scopes.pushItem _ }

/-- From here on the name of the list is known to be in the record that has it. -/
theorem writeList_inlines {items : Run Unit} (h : Inlines height (listing height id held) items) :
    Inlines height held (do Run.write id (.list []); items) := by
  have listed : Relates (State.Alongside height held) (Run.write id (.list []))
      (Run.write id (.list [])) (State.Alongside height (listing height id held)) :=
    fun _ _ hs => .ok { hs with scopes := hs.scopes.listed id _ }
  refine listed.bind fun _ => fun s s' hs => ?_
  have ends := h s s' hs
  generalize items s = r, items s' = r' at ends
  cases ends with
  | ok ht => exact .ok { ht with scopes := ht.scopes.forget fun _ => Scopes.Merged.mem_listing id }
  | error same => exact .error same

theorem listItem_inlines (h : Inlines (height + 1) (listing height id held) body)
    {stopWhen emitWhen : Option Term}
    (hstop : ∀ t ∈ stopWhen.toList, t.isPlain = true)
    (hemit : ∀ t ∈ emitWhen.toList, t.isPlain = true) :
    Inlines height (listing height id held) (listItem setting id stopWhen emitWhen body) := by
  have op := Inlines.operationalOn setting (height + 1) (listing height id held)
  have conditions : Inlines (height + 1) (listing height id held) (do
      let stop ← condition setting false stopWhen
      let emit ← condition setting true emitWhen
      return (stop, emit)) :=
    (op.condition false hstop).bind fun _ => (op.condition true hemit).bind fun _ => .pure
  refine (inScope_inlines h conditions).bind fun ((stop, emit), item) => ?_
  dsimp only
  split
  · exact (pushItem_inlines item).bind fun _ => .pure
  · exact .pure

theorem runList_inlines (h : ∀ held, Inlines (height + 1) held body)
    {count stopWhen emitWhen : Option Term}
    (hcount : ∀ t ∈ count.toList, t.isPlain = true)
    (hstop : ∀ t ∈ stopWhen.toList, t.isPlain = true)
    (hemit : ∀ t ∈ emitWhen.toList, t.isPlain = true) :
    Inlines height held (runList setting id count stopWhen emitWhen body) := by
  have hitem : Inlines height (listing height id held)
      (listItem setting id stopWhen emitWhen body) := listItem_inlines (h _) hstop hemit
  have op := Inlines.operationalOn setting height held
  have loop := Inlines.looping height (listing height id held)
  refine (op.evalLimit hcount).bind fun count => Inlines.offset.bind fun start =>
    (Inlines.log _).bind fun _ => writeList_inlines ?_
  cases count with
  | some n => exact loop.counted hitem n
  | none => exact Inlines.cursor.bind fun c => loop.uncounted hitem _ _

/-! ### Regions -/

theorem runBounded_inlines (h : ∀ held, Inlines (height + 1) held body) {length : Term}
    (plain : length.isPlain = true) :
    Inlines height held (runBounded setting id length body) := by
  have hitem : Inlines height (listing height id held) (regionItem id body) :=
    (inScope_inlines (h _) .pure).bind fun ((), item) => pushItem_inlines item
  have op := Inlines.operationalOn setting height held
  have loop := Inlines.looping height (listing height id held)
  refine (op.evalLength plain).bind fun n => Inlines.cursor.bind fun c =>
    (Inlines.log _).bind fun _ => writeList_inlines ?_
  have opened : Inlines height (listing height id held)
      (openRegion ⟨c.offset, min (c.offset + n) c.length⟩) :=
    fun _ _ hs => .ok { hs with regions := congrArg (_ :: ·) hs.regions }
  have closed : Inlines height (listing height id held) closeRegion :=
    fun _ _ hs => .ok { hs with regions := congrArg (List.drop 1) hs.regions }
  refine opened.bind fun _ => (loop.fill hitem _ _).bind fun _ => closed.bind fun _ =>
    Inlines.cursor.bind fun c => ?_
  split
  · exact (Inlines.log _).bind fun _ => .setCursor _
  · exact .setCursor _

/-! ### Nodes -/

theorem inOrder_inlines (h : Inlines height held body) (order : ByteOrder) :
    Inlines height held (inOrder order body) :=
  Inlines.cursor.bind fun c => (Inlines.setOrder order).bind fun _ => h.bind fun _ =>
    .setOrder c.order

theorem runAll_inlines_of {nodes : List Node}
    (h : ∀ node ∈ nodes, Inlines height held (runNode setting call node)) :
    Inlines height held (runAll setting call nodes) := by
  induction nodes with
  | nil => exact .pure
  | cons node rest ih =>
    obtain ⟨hnode, hrest⟩ := List.forall_mem_cons.mp h
    exact hnode.bind fun _ => ih hrest

theorem runNode_inlines (unlimited : setting.config.maxDepth = 0) (node : Node)
    (plain : ∀ inner ∈ node.nested, inner.isPlain = true) (height : Nat) (held : List String) :
    Inlines height held (runNode setting call node) := by
  -- The blocks of lists and regions stand one scope higher, and know the name of the list there.
  induction node using Node.induct generalizing height held with
  | step node ih =>
    have block {spec : List Node} (hspec : ∀ child ∈ spec, child ∈ node.children)
        (height : Nat) (held : List String) : Inlines height held (run setting call spec) := by
      refine nested_inlines unlimited (runAll_inlines_of fun child hchild => ?_)
      exact ih child (hspec child hchild)
        (fun inner hinner => plain inner (Node.mem_nested_of_mem_child (hspec child hchild) hinner)) _ _
    have self := plain node node.self_mem_nested
    rw [Node.isPlain, Bool.and_eq_true, List.all_eq_true] at self
    obtain ⟨uncalled, terms⟩ := self
    cases node with
    | action a => exact .action terms
    | list id items count stopWhen readUntil emitWhen =>
      obtain ⟨terms, hemit⟩ := List.forall_mem_append.mp terms
      obtain ⟨hcount, hstop⟩ := List.forall_mem_append.mp terms
      exact runList_inlines (block (fun _ h => h) _) hcount hstop hemit
    | template name arguments => cases uncalled
    | branch condition spec otherwise =>
      have op := Inlines.operationalOn setting height held
      refine (op.evalTruth (terms condition (.head _))).bind fun b => ?_
      split
      · exact block (fun _ => List.mem_append_left _) _ _
      · exact block (fun _ => List.mem_append_right _) _ _
    | switch on cases default =>
      rw [runNode_switch]
      refine (Inlines.eval (terms on (.head _))).bind fun v => ?_
      dsimp only
      cases hspec : Node.chosen v.display cases default with
      | some spec => exact block (fun _ => Node.mem_children_of_chosen hspec) _ _
      | none => exact .log _
    | bounded id length spec =>
      exact runBounded_inlines (block (fun _ h => h) _) (terms length (.head _))
    | withByteOrder order spec => exact inOrder_inlines (block (fun _ h => h) _ _) order

theorem runAll_inlines (unlimited : setting.config.maxDepth = 0) {nodes : List Node}
    (plain : ∀ inner ∈ nodes.flatMap Node.nested, inner.isPlain = true) (height : Nat)
    (held : List String) : Inlines height held (runAll setting call nodes) := by
  refine runAll_inlines_of fun node hnode => runNode_inlines unlimited node ?_ height held
  exact fun inner hinner => plain inner (List.mem_flatMap.mpr ⟨node, hnode, hinner⟩)

end Block

end ByteSchema
