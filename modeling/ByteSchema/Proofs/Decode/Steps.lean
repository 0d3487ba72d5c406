import ByteSchema.Proofs.Decode.Operations

/-!
# What one step leaves behind

`Balanced s t` compares the states before and after: the cursor moved ahead inside the input, and
the stacks are as high as they were. A program that `Settles` stays balanced, whether it succeeds
or fails. The operations settle, and with them every action.
-/

namespace ByteSchema

/-- The cursor moved ahead inside the input; the open regions and the depth are as they were. -/
structure Advanced (s t : State) : Prop where
  data : t.cursor.data = s.cursor.data
  forward : s.cursor.offset ≤ t.cursor.offset
  inside : t.cursor.offset ≤ t.cursor.length
  regions : t.regions = s.regions
  depth : t.depth = s.depth

/-- Besides, as many scopes are open, and the byte order and the arguments are as they were. -/
structure Balanced (s t : State) : Prop extends Advanced s t where
  order : t.cursor.order = s.cursor.order
  height : t.scopes.inner.length = s.scopes.inner.length
  frames : t.scopes.frames = s.scopes.frames

/-- The cursor is inside the input. -/
def State.Inside (s : State) : Prop := s.cursor.offset ≤ s.cursor.length

theorem Advanced.trans {s t u : State} (hst : Advanced s t) (htu : Advanced t u) : Advanced s u where
  data := htu.data.trans hst.data
  forward := Nat.le_trans hst.forward htu.forward
  inside := htu.inside
  regions := htu.regions.trans hst.regions
  depth := htu.depth.trans hst.depth

theorem Advanced.remaining_lt {s t : State} (h : Advanced s t)
    (moved : t.cursor.offset ≠ s.cursor.offset) : t.cursor.remaining < s.cursor.remaining := by
  have length : t.cursor.length = s.cursor.length := congrArg List.length h.data
  have forward := h.forward
  have inside := h.inside
  simp only [Cursor.remaining]
  omega

theorem Balanced.trans {s t u : State} (hst : Balanced s t) (htu : Balanced t u) : Balanced s u where
  toAdvanced := hst.toAdvanced.trans htu.toAdvanced
  order := htu.order.trans hst.order
  height := htu.height.trans hst.height
  frames := htu.frames.trans hst.frames

theorem Balanced.refl {s : State} (h : s.Inside) : Balanced s s :=
  ⟨⟨rfl, Nat.le_refl _, h, rfl, rfl⟩, rfl, rfl, rfl⟩

theorem Balanced.log {s : State} (h : s.Inside) (log : Log) : Balanced s { s with log := log } :=
  ⟨⟨rfl, Nat.le_refl _, h, rfl, rfl⟩, rfl, rfl, rfl⟩

theorem Balanced.ahead {s : State} {c : Cursor} (h : s.cursor.Ahead c) :
    Balanced s { s with cursor := c } :=
  ⟨⟨h.data, h.forward, h.inside, rfl, rfl⟩, h.order, rfl, rfl⟩

theorem Balanced.inside_of {s t : State} (h : Balanced s t) : t.Inside := h.inside

/-! ### Scopes -/

namespace Scopes

/-- As many scopes are open, under the same arguments. -/
def SameShape (a b : Scopes) : Prop := b.inner.length = a.inner.length ∧ b.frames = a.frames

theorem mapTarget_shape (s : Scopes) (f : Record → Record) : s.SameShape (s.mapTarget f) := by
  unfold mapTarget
  split
  · next h => simp [SameShape, h]
  · exact ⟨rfl, rfl⟩

theorem length_of_assignIn {id : String} {value : Value} {records assigned : List Record}
    (h : assignIn? id value records = some assigned) : assigned.length = records.length := by
  induction records generalizing assigned with
  | nil => cases h
  | cons r rest ih =>
    unfold assignIn? at h
    split at h
    · cases h
      rfl
    · obtain ⟨tail, htail, rfl⟩ := Option.map_eq_some_iff.mp h
      simp [ih htail]

theorem assign_shape (s : Scopes) (id : String) (value : Value) :
    s.SameShape (s.assign id value) := by
  unfold assign
  split
  · next h => exact ⟨length_of_assignIn h, rfl⟩
  · split
    · exact ⟨rfl, rfl⟩
    · exact mapTarget_shape s _

end Scopes

theorem Balanced.scopes {s : State} {scopes : Scopes} (h : s.Inside)
    (shape : s.scopes.SameShape scopes) : Balanced s { s with scopes := scopes } :=
  ⟨⟨rfl, Nat.le_refl _, h, rfl, rfl⟩, rfl, shape.1, shape.2⟩

/-! ### Programs that settle -/

/-- A step halts at an error that has its cause, or where words overflow. -/
inductive Halt.Caused (setting : Setting) (data : List UInt8) : Halt → Prop where
  | failed {e : Error} : Cause setting data e → Caused setting data (.failed e)
  | overflow : Caused setting data .overflow

/-- From inside the input, `m` ends balanced, also where it halts, and then for a cause. -/
def Settles {α : Type} (setting : Setting) (m : Run α) : Prop :=
  ∀ s : State, s.Inside → Ends m s (fun _ t => Balanced s t) fun halt t =>
    Balanced s t ∧ halt.Caused setting s.cursor.data

namespace Settles

variable {α β : Type} {setting : Setting}

theorem pure {a : α} : Settles setting (pure a : Run α) := fun _ h => .refl h

theorem bind {m : Run β} {f : β → Run α} (hm : Settles setting m)
    (hf : ∀ b, Settles setting (f b)) : Settles setting (m >>= f) := by
  intro s h
  rw [ends_bind]
  refine (hm s h).imp_done fun b t hst => ?_
  refine (hf b t hst.inside_of).imp (fun _ u htu => hst.trans htu) ?_
  rintro halt u ⟨htu, cause⟩
  exact ⟨hst.trans htu, hst.data ▸ cause⟩

theorem ofExcept {x : Except Error α} (h : ∀ data, Fails (Cause setting data) x) :
    Settles setting (Run.ofExcept x) := by
  cases x with
  | ok a => exact .pure
  | error e => exact fun s hs => ⟨.refl hs, .failed (h s.cursor.data e rfl)⟩

theorem overflow : Settles setting (throw .overflow : Run α) := fun _ h => ⟨.refl h, .overflow⟩

theorem log (event : Event) : Settles setting (Run.log event) := fun _ h => .log h _

theorem mapScopes {f : Scopes → Scopes} (hf : ∀ s : Scopes, s.SameShape (f s)) :
    Settles setting (Run.mapScopes f) :=
  fun s h => .scopes h (hf s.scopes)

theorem write (id : String) (value : Value) : Settles setting (Run.write id value) :=
  .mapScopes fun s => s.mapTarget_shape _

theorem read {f : Cursor → Except Error (α × Cursor)} (hf : Reads setting f) :
    Settles setting (Run.read f) := by
  intro s h
  have moves := hf s.cursor h
  rw [Run.ends_read]
  constructor
  · intro a next hok
    rw [hok] at moves
    exact .ahead moves
  · intro e herror
    rw [herror] at moves
    exact ⟨.refl h, .failed moves⟩

theorem eval (term : Term) : Settles setting (Run.eval setting term) := by
  intro s h
  rw [Run.ends_eval]
  refine (evaluate_raises (Run.env setting s) term s.log).imp (fun _ log _ => .log h log) ?_
  intro e log cause
  exact ⟨.log h log, .failed (.term cause)⟩

theorem operational (setting : Setting) : Operational setting fun _ m => Settles setting m where
  pure _ := .pure
  bind := .bind
  get _ h := .refl h
  log := .log
  eval := .eval
  ofExcept hx := .ofExcept fun _ => hx.imp fun _ => IsMistake.cause
  assertionFailed message _ h := ⟨.refl h, .failed (.assertionFailed message h)⟩
  write := .write
  merge _ := .mapScopes fun s => s.mapTarget_shape _
  read hf := .read hf.reads

end Settles

/-- What any action leaves behind, successful or not. -/
theorem Action.run_settles {setting : Setting} (a : Action) : Settles setting (a.run setting) :=
  (Settles.operational setting).action a (fun _ _ _ hf => .read hf)
    (fun id _ _ v => .mapScopes fun s => s.assign_shape id v)
    fun _ _ _ => (Settles.operational setting).runAlign .overflow _ _

end ByteSchema
