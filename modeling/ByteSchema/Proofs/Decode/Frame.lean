import ByteSchema.Proofs.Decode.Compositional
import ByteSchema.Proofs.Value.Record

/-!
# What blocks leave alone

Only writes change the records under construction: all of them go to the target but for `set`, and
a scope that a block opened is gone when the block ends. A `Frame` is a relation on the records
that these steps keep, and `run_callWithin_frames` says that then all blocks keep it, as long as they
only set names that the frame allows for.
-/

namespace ByteSchema

structure Frame where
  /-- The names that may be set. -/
  allowed : String → Prop
  rel : Scopes → Scopes → Prop
  refl (s : Scopes) : rel s s
  trans {s t u : Scopes} : rel s t → rel t u → rel s u
  write (s : Scopes) (id : String) (value : Value) : rel s (s.write id value)
  merge (s : Scopes) (fields : Record) : rel s (s.mapTarget fun r => r.merge fields)
  pushItem (s : Scopes) (id : String) (item : Value) :
    rel s (s.mapTarget fun r => r.pushItem id item)
  assign (s : Scopes) {id : String} (value : Value) : allowed id → rel s (s.assign id value)
  popScope {s t u : Scopes} {r : Record} : rel s.push t → t.pop? = some (r, u) → rel s u
  popFrame {s t u v : Scopes} {frame r : Record} : rel (s.pushFrame frame).push t →
    t.pop? = some (r, u) → u.popFrame? = some v → rel s v

/-- Where `m` succeeds, it keeps the frame. -/
def Frames {α : Type} (f : Frame) (m : Run α) : Prop :=
  ∀ s, Ends m s (fun _ t => f.rel s.scopes t.scopes) fun _ _ => True

namespace Frames

variable {α β : Type} {f : Frame} {setting : Setting}

theorem bind {m : Run β} {g : β → Run α} (hm : Frames f m) (hg : ∀ b, Frames f (g b)) :
    Frames f (m >>= g) := by
  intro s
  rw [ends_bind]
  refine (hm s).imp_done fun b t hst => ?_
  exact (hg b t).imp_done fun _ _ htu => f.trans hst htu

/-- Any program that does not touch the records. -/
theorem still {m : Run α} (hm : ∀ s, Ends m s (fun _ t => t.scopes = s.scopes) fun _ _ => True) :
    Frames f m := by
  refine fun s => (hm s).imp_done fun _ t ht => ?_
  rw [ht]
  exact f.refl s.scopes

theorem throw {halt : Halt} : Frames f (throw halt : Run α) := fun _ => trivial

theorem ofExcept {x : Except Error α} : Frames f (Run.ofExcept x) :=
  .still fun _ => Run.ends_ofExcept.mpr ⟨fun _ _ => rfl, fun _ _ => trivial⟩

theorem read {g : Cursor → Except Error (α × Cursor)} : Frames f (Run.read g) :=
  .still fun _ => Run.ends_read.mpr ⟨fun _ _ _ => rfl, fun _ _ => trivial⟩

theorem eval (term : Term) : Frames f (Run.eval setting term) :=
  .still fun _ => Run.ends_eval.mpr (.intro (fun _ _ _ => rfl) fun _ _ _ => trivial)

theorem mapScopes {g : Scopes → Scopes} (hg : ∀ s, f.rel s (g s)) : Frames f (Run.mapScopes g) :=
  fun s => hg s.scopes

theorem write (id : String) (value : Value) : Frames f (Run.write id value) :=
  .mapScopes fun s => f.write s id value

theorem nested {body : Run Unit} (hbody : Frames f body) : Frames f (Block.nested setting body) :=
  fun _ => Block.ends_nested.mpr ⟨fun _ => trivial, fun _ => hbody _⟩

/-- A scope that is closed again takes with it what was written to it. -/
theorem inScope {body : Run Unit} {after : Run α} (hbody : Frames f body)
    (hafter : Frames f after) : Frames f (Block.inScope body after) := by
  intro s
  simp only [Block.inScope, ends_bind, Run.ends_mapScopes]
  refine (hbody _).imp_done fun _ t ht => (hafter t).imp_done fun a u hu => ?_
  cases hpop : u.scopes.pop? with
  | none => simp [Run.popScope, hpop]
  | some popped =>
    rw [Run.ends_popScope hpop]
    exact f.popScope (f.trans ht hu) hpop

theorem enterCall {body : Run Unit} (hbody : Frames f body) (frame : Record) :
    Frames f (Block.enterCall body frame) := by
  intro s
  rw [Block.enterCall, ends_bind, Run.ends_mapScopes, ends_bind]
  refine (hbody _).imp_done fun _ t ht => ?_
  rw [ends_bind]
  cases hpop : t.scopes.pop? with
  | none => simp [Run.popScope, hpop]
  | some popped =>
    obtain ⟨fields, scopes⟩ := popped
    rw [Run.ends_popScope hpop, ends_bind]
    cases hframe : scopes.popFrame? with
    | none => simp [Run.popFrame, hframe]
    | some returned =>
      rw [Run.ends_popFrame hframe]
      exact f.trans (f.popFrame ht hpop hframe) (f.merge returned fields)

theorem compositional (f : Frame) (setting : Setting) :
    Compositional setting fun _ m => Frames f m where
  pure _ := .still fun _ => rfl
  bind := .bind
  get := .still fun _ => rfl
  log _ := .still fun _ => rfl
  eval := .eval
  ofExcept _ := .ofExcept
  assertionFailed _ _ := trivial
  write := .write
  merge fields := .mapScopes fun s => f.merge s fields
  read _ := .read
  exhausted := .throw
  unknownTemplate _ := .throw
  pushItem id _ := .mapScopes fun s => f.pushItem s id _
  setOrder _ := .still fun _ => rfl
  opened id _ s := f.write s.scopes id _
  closed _ _ := .still fun _ => rfl
  nested := .nested
  inScope := .inScope
  enterCall frame hbody := .enterCall hbody frame

end Frames

/-! ### Blocks -/

namespace Block

variable {f : Frame} {setting : Setting}

theorem action_frames {nodes : List Node}
    (hset : ∀ id value, Occurs setting.schema nodes (.action (.set id value)) → f.allowed id)
    (a : Action) (ha : Occurs setting.schema nodes (.action a)) : Frames f (a.run setting) :=
  (Frames.compositional f setting).action a (fun _ _ _ _ => .read)
    (fun id value heq v => .mapScopes fun s => f.assign s v (hset id value (heq ▸ ha)))
    fun _ _ _ => (Frames.compositional f setting).runAlign .throw _ _

theorem runAll_callWithin_frames (levels : Nat) {nodes : List Node}
    (hset : ∀ id value, Occurs setting.schema nodes (.action (.set id value)) → f.allowed id) :
    Frames f (runAll setting (callWithin setting levels) nodes) :=
  (Frames.compositional f setting).runAll
    ((Frames.compositional f setting).parts_callWithin levels (action_frames hset))

/-- Blocks keep a frame that allows for all that they and their templates set. -/
theorem run_callWithin_frames (levels : Nat) {nodes : List Node}
    (hset : ∀ id value, Occurs setting.schema nodes (.action (.set id value)) → f.allowed id) :
    Frames f (run setting (callWithin setting levels) nodes) :=
  .nested (runAll_callWithin_frames levels hset)

end Block

/-! ### The value of a name in each record -/

namespace Scopes

/-- What the records hold under `id`, from the target on outwards. -/
def column (id : String) (s : Scopes) : List (Option Value) :=
  (s.inner ++ [s.root]).map fun r => r.get? id

variable {id : String} {s : Scopes}

theorem target_mapTarget (f : Record → Record) : (s.mapTarget f).target = f s.target := by
  obtain ⟨root, inner, frames⟩ := s
  cases inner <;> rfl

theorem column_mapTarget (f : Record → Record) :
    (s.mapTarget f).column id = (f s.target).get? id :: (s.column id).tail := by
  obtain ⟨root, inner, frames⟩ := s
  cases inner <;> rfl

theorem column_eq : s.column id = s.target.get? id :: (s.column id).tail := by
  obtain ⟨root, inner, frames⟩ := s
  cases inner <;> rfl

theorem column_push : s.push.column id = none :: s.column id := rfl

theorem column_pop {t : Scopes} {r : Record} (h : s.pop? = some (r, t)) :
    t.column id = (s.column id).tail := by
  obtain ⟨root, inner, frames⟩ := s
  cases inner with
  | nil => cases h
  | cons r rest =>
    cases h
    rfl

theorem column_popFrame {t : Scopes} (h : s.popFrame? = some t) : t.column id = s.column id := by
  obtain ⟨root, inner, frames⟩ := s
  cases frames with
  | nil => cases h
  | cons frame rest =>
    cases h
    rfl

theorem column_assignIn {other : String} (value : Value) (hne : id ≠ other)
    {records assigned : List Record} (h : assignIn? other value records = some assigned) :
    assigned.map (fun r => r.get? id) = records.map fun r => r.get? id := by
  induction records generalizing assigned with
  | nil => cases h
  | cons r rest ih =>
    unfold assignIn? at h
    split at h
    · cases h
      simp [r.get?_insert_of_ne other value hne]
    · obtain ⟨tail, htail, rfl⟩ := Option.map_eq_some_iff.mp h
      simp [ih htail]

theorem column_assign {other : String} (value : Value) (hne : id ≠ other) :
    (s.assign other value).column id = s.column id := by
  unfold assign
  split
  · next h => simp [column, column_assignIn value hne h]
  · split
    · simp [column, s.root.get?_insert_of_ne other value hne]
    · rw [write, column_mapTarget, Record.get?_insert_of_ne _ _ _ hne, ← column_eq]

end Scopes

/-- Every record but the target holds the same under `id` when `id` itself is not set. -/
def Frame.column (id : String) : Frame where
  allowed other := id ≠ other
  rel s t := (t.column id).tail = (s.column id).tail
  refl _ := rfl
  trans hst htu := htu.trans hst
  write s _ _ := by rw [Scopes.write, Scopes.column_mapTarget, List.tail_cons]
  merge s _ := by rw [Scopes.column_mapTarget, List.tail_cons]
  pushItem s _ _ := by rw [Scopes.column_mapTarget, List.tail_cons]
  assign s _ value hne := by rw [Scopes.column_assign value hne]
  popScope hst hpop := by rw [Scopes.column_pop hpop, hst, Scopes.column_push, List.tail_cons]
  popFrame hst hpop hframe := by
    rw [Scopes.column_popFrame hframe, Scopes.column_pop hpop, hst]
    rfl

end ByteSchema
