import ByteSchema.Proofs.Decode.Compositional
import ByteSchema.Proofs.Decode.Outcomes

/-!
# Halts that a decode avoids

There are many ways to halt, and few of them are open to a given schema. `HaltsOnly fine data m`
says that from inside of `data` a program halts only in ways that `fine` allows. Actions decide:
where none of them halts in another way, no decode does.
-/

namespace ByteSchema

/-- The cursor is inside of `data`, and so are the starts of the open regions. -/
structure State.Over (data : List UInt8) (s : State) : Prop where
  data : s.cursor.data = data
  inside : s.Inside
  started : ∀ r ∈ s.regions, r.start ≤ s.cursor.length

theorem State.Over.still {data : List UInt8} {s t : State} (h : s.Over data)
    (cursor : t.cursor = s.cursor) (regions : t.regions = s.regions) : t.Over data where
  data := cursor ▸ h.data
  inside := by
    rw [State.Inside, cursor]
    exact h.inside
  started := by
    rw [cursor, regions]
    exact h.started

/-- The input ends too early, or a byte of it announces no length. -/
def Error.isReadFault : Error → Bool
  | unexpectedEof .. | invalidVint .. => true
  | _ => false

theorem IsMistake.no_readFault {e : Error} (h : IsMistake e) : e.isReadFault = false := by
  cases h <;> rfl

/-- All that can halt apart from actions is allowed to. -/
structure Halt.Allowed (setting : Setting) (fine : Halt → Prop) : Prop where
  failed {e : Error} : e.isReadFault = false → fine (.failed e)
  term {e : Error} : TermCause setting.functions setting.config.strictFunctions e →
    fine (.failed e)
  exhausted : fine .exhausted

/-- From inside of `data`, `m` ends there, or halts in a way that `fine` allows. -/
def HaltsOnly {α : Type} (fine : Halt → Prop) (data : List UInt8) (m : Run α) : Prop :=
  ∀ s : State, s.Over data → Ends m s (fun _ t => t.Over data) fun halt _ => fine halt

namespace HaltsOnly

variable {α β : Type} {setting : Setting} {fine : Halt → Prop} {data : List UInt8}

theorem bind {m : Run β} {f : β → Run α} (hm : HaltsOnly fine data m)
    (hf : ∀ b, HaltsOnly fine data (f b)) : HaltsOnly fine data (m >>= f) := by
  intro s h
  rw [ends_bind]
  exact (hm s h).imp_done fun b t held => hf b t held

/-- Any program that does not move. -/
theorem still {m : Run α} (hm : ∀ s, Ends m s
    (fun _ t => t.cursor = s.cursor ∧ t.regions = s.regions) fun halt _ => fine halt) :
    HaltsOnly fine data m := by
  intro s h
  exact (hm s).imp_done fun _ _ ⟨cursor, regions⟩ => h.still cursor regions

theorem pure {a : α} : HaltsOnly fine data (pure a : Run α) := .still fun _ => ⟨rfl, rfl⟩

theorem throw {halt : Halt} (h : fine halt) : HaltsOnly fine data (throw halt : Run α) :=
  fun _ _ => h

theorem ofExcept {x : Except Error α} (hx : Fails (fun e => fine (.failed e)) x) :
    HaltsOnly fine data (Run.ofExcept x) :=
  .still fun _ => Run.ends_ofExcept.mpr ⟨fun _ _ => ⟨rfl, rfl⟩, hx⟩

theorem mapScopes (f : Scopes → Scopes) : HaltsOnly fine data (Run.mapScopes f) :=
  .still fun _ => ⟨rfl, rfl⟩

/-- A read whose failures are all fine. -/
theorem read {f : Cursor → Except Error (α × Cursor)} (hf : Reads setting f)
    (hfine : ∀ c : Cursor, c.offset ≤ c.length → Fails (fun e => fine (.failed e)) (f c)) :
    HaltsOnly fine data (Run.read f) := by
  intro s h
  have moves := hf s.cursor h.inside
  rw [Run.ends_read]
  refine ⟨fun a next hok => ?_, hfine s.cursor h.inside⟩
  rw [hok] at moves
  have length : next.length = s.cursor.length := congrArg List.length moves.data
  exact ⟨moves.data.trans h.data, moves.inside, fun r hr => length ▸ h.started r hr⟩

section

variable (allowed : Halt.Allowed setting fine)

include allowed

theorem popScope : HaltsOnly fine data Run.popScope := by
  refine .still fun s => ?_
  cases hpop : s.scopes.pop? with
  | none =>
    simp only [Run.popScope, ends_bind, ends_get, hpop]
    exact allowed.failed rfl
  | some popped =>
    rw [Run.ends_popScope hpop]
    exact ⟨rfl, rfl⟩

theorem popFrame : HaltsOnly fine data Run.popFrame := by
  refine .still fun s => ?_
  cases hpop : s.scopes.popFrame? with
  | none =>
    simp only [Run.popFrame, ends_bind, ends_get, hpop]
    exact allowed.failed rfl
  | some scopes =>
    rw [Run.ends_popFrame hpop]
    exact ⟨rfl, rfl⟩

theorem eval (term : Term) : HaltsOnly fine data (Run.eval setting term) := by
  refine .still fun s => Run.ends_eval.mpr ?_
  exact (evaluate_raises (Run.env setting s) term s.log).imp (fun _ _ _ => ⟨rfl, rfl⟩)
    fun _ _ cause => allowed.term cause

theorem nested {body : Run Unit} (hbody : HaltsOnly fine data body) :
    HaltsOnly fine data (Block.nested setting body) := by
  intro s h
  rw [Block.ends_nested]
  have deeper : State.Over data { s with depth := s.depth + 1 } := h.still rfl rfl
  exact ⟨fun _ => allowed.failed rfl, fun _ =>
    (hbody _ deeper).imp_done fun _ _ ht => ht.still rfl rfl⟩

theorem inScope {body : Run Unit} {after : Run α} (hbody : HaltsOnly fine data body)
    (hafter : HaltsOnly fine data after) : HaltsOnly fine data (Block.inScope body after) :=
  (mapScopes _).bind fun _ => hbody.bind fun _ => hafter.bind fun _ =>
    (popScope allowed).bind fun _ => .pure

theorem enterCall {body : Run Unit} (hbody : HaltsOnly fine data body) (frame : Record) :
    HaltsOnly fine data (Block.enterCall body frame) :=
  (mapScopes _).bind fun _ => hbody.bind fun _ => (popScope allowed).bind fun _ =>
    (popFrame allowed).bind fun _ => .mapScopes _

theorem compositional : Compositional setting fun _ m => HaltsOnly fine data m where
  pure _ := .pure
  bind := .bind
  get := .still fun _ => ⟨rfl, rfl⟩
  log _ := .still fun _ => ⟨rfl, rfl⟩
  eval := eval allowed
  ofExcept hx := .ofExcept (hx.imp fun _ mistake => allowed.failed mistake.no_readFault)
  assertionFailed _ := .still fun _ => allowed.failed rfl
  write _ _ := .mapScopes _
  merge _ := .mapScopes _
  read hf := .read (hf.reads : Reads setting _) fun c inside e failed => by
    obtain ⟨a, next, served, -⟩ := hf c inside
    cases served.symm.trans failed
  exhausted := .throw allowed.exhausted
  unknownTemplate _ := .throw (allowed.failed rfl)
  pushItem _ _ := .mapScopes _
  setOrder _ _ h := ⟨h.data, h.inside, h.started⟩
  opened _ _ _ h := ⟨h.data, h.inside, List.forall_mem_cons.mpr ⟨h.inside, h.started⟩⟩
  -- The end of a region moves the cursor, from wherever the items left it, but not out of the input.
  closed _ _ _ h := ⟨h.data, Nat.min_le_right _ _, fun r hr => h.started r (List.mem_of_mem_drop hr)⟩
  nested := nested allowed
  inScope := inScope allowed
  enterCall frame hbody := enterCall allowed hbody frame

theorem program {levels : Nat}
    (hrun : HaltsOnly fine data
      (Block.run setting (Block.callWithin setting levels) setting.schema.spec)) :
    HaltsOnly fine data (Decoder.program setting levels) := by
  have root : HaltsOnly fine data Decoder.root := by
    refine .still fun s => ?_
    simp only [Decoder.root, ends_bind, ends_get]
    split
    · exact ⟨rfl, rfl⟩
    · exact allowed.failed rfl
  have completed (record : Record) : HaltsOnly fine data (do
      let c ← Run.cursor
      Run.log (.completed record.length c.offset c.length)
      return record) := .still fun _ => ⟨rfl, rfl⟩
  have program := hrun.bind fun _ => root.bind completed
  intro s h
  exact program _ (h.still rfl rfl)

end

end HaltsOnly

/-- Where the actions that a schema comes to halt in ways that are fine, so do its decodes. -/
theorem Decoder.halts_fine {setting : Setting} {fine : Halt → Prop} {levels : Nat}
    {data : List UInt8} {halt : Halt} (allowed : Halt.Allowed setting fine)
    (actions : ∀ a, Occurs setting.schema setting.schema.spec (.action a) →
      HaltsOnly fine data (a.run setting))
    (halted : (decodeWithin levels setting data).result = .error halt) : fine halt := by
  have block := (HaltsOnly.compositional allowed).run_callWithin levels actions
  -- The top-level block starts at offset 0, which is inside of the empty input too.
  have start : (initial setting data).Over data := ⟨rfl, Nat.zero_le _, nofun⟩
  have program := HaltsOnly.program allowed block _ start
  simp only [decodeWithin, EStateM.run] at halted
  split at halted
  · cases halted
  · next h =>
    cases halted
    exact program.of_error h

end ByteSchema
