import ByteSchema.Proofs.Decode.Outcomes

/-!
# The arguments of outer calls

Paths lead into the arguments of the innermost call alone, and a call takes its own arguments away
when it ends. So a block neither sees nor changes the arguments of the calls around the innermost
one: `outer_arguments_unseen` runs it over two such stacks.
-/

namespace ByteSchema

/-! ### The same records over other arguments -/

namespace Scopes

variable {outer outer' : List Record} {a b : Scopes}

def withFrames (s : Scopes) (frames : List Record) : Scopes := { s with frames := frames }

/-- The same records and arguments, but for what is at the bottom of the arguments. -/
def Over (outer outer' : List Record) (a b : Scopes) : Prop :=
  ∃ calls, a.frames = calls ++ outer ∧ b = a.withFrames (calls ++ outer')

/-- Whatever changes the records without looking at the arguments. -/
theorem Over.map {f : Scopes → Scopes} (h : Over outer outer' a b)
    (hf : ∀ (s : Scopes) frames, f (s.withFrames frames) = (f s).withFrames frames) :
    Over outer outer' (f a) (f b) := by
  obtain ⟨calls, hcalls, rfl⟩ := h
  have same : f a = (f a).withFrames a.frames := hf a a.frames
  have kept : (f a).frames = a.frames := by
    rw [same]
    rfl
  exact ⟨calls, kept.trans hcalls, hf a _⟩

theorem mapTarget_withFrames (f : Record → Record) (s : Scopes) (frames : List Record) :
    (s.withFrames frames).mapTarget f = (s.mapTarget f).withFrames frames := by
  obtain ⟨root, inner, old⟩ := s
  cases inner <;> rfl

theorem assign_withFrames (id : String) (value : Value) (s : Scopes) (frames : List Record) :
    (s.withFrames frames).assign id value = (s.assign id value).withFrames frames := by
  obtain ⟨root, inner, old⟩ := s
  show assign ⟨root, inner, frames⟩ id value = _
  unfold assign
  dsimp only
  split
  · rfl
  · split
    · rfl
    · exact mapTarget_withFrames _ ⟨root, inner, old⟩ frames

/-- Only the top of the arguments is visible. -/
theorem Over.resolve (top : outer'.head? = outer.head?) (h : Over outer outer' a b) :
    b.resolve = a.resolve := by
  obtain ⟨calls, hcalls, rfl⟩ := h
  have first : (calls ++ outer').take 1 = (calls ++ outer).take 1 := by
    simp [List.take_one, top]
  have visible : (a.withFrames (calls ++ outer')).visible = a.visible := by
    show a.inner ++ (calls ++ outer').take 1 ++ [a.root] = a.inner ++ a.frames.take 1 ++ [a.root]
    rw [first, hcalls]
  funext path
  unfold Scopes.resolve
  rw [visible]
  rfl

theorem Over.pop? (h : Over outer outer' a b) :
    Option.Rel (fun x y => y.1 = x.1 ∧ Over outer outer' x.2 y.2) a.pop? b.pop? := by
  obtain ⟨calls, hcalls, rfl⟩ := h
  obtain ⟨root, inner, frames⟩ := a
  cases inner with
  | nil => exact .none
  | cons r rest => exact .some ⟨rfl, calls, hcalls, rfl⟩

/-- A call ends with the arguments below its own as they were when it began. -/
theorem Over.popFrame? {c d : Scopes} {frame : Record} (h : Over outer outer' a b)
    (h' : Over outer outer' c d) (hframes : c.frames = frame :: a.frames) :
    ∃ d', d.popFrame? = some d' ∧ Over outer outer' (c.withFrames a.frames) d' := by
  obtain ⟨calls, hcalls, rfl⟩ := h
  obtain ⟨calls', hcalls', rfl⟩ := h'
  have same : calls' = frame :: calls := by
    rw [hcalls', hcalls, ← List.cons_append] at hframes
    exact List.append_cancel_right hframes
  subst same
  exact ⟨c.withFrames (calls ++ outer'), rfl, calls, hcalls, rfl⟩

theorem Over.congruence (top : outer'.head? = outer.head?) :
    Congruence (Over outer outer') where
  resolve h := h.resolve top
  mapTarget f h := h.map (f := fun s => s.mapTarget f) (mapTarget_withFrames f)
  assign id value h := h.map (f := fun s => s.assign id value) (assign_withFrames id value)
  push h := h.map fun _ _ => rfl
  pushFrame frame h := by
    obtain ⟨calls, hcalls, rfl⟩ := h
    exact ⟨frame :: calls, congrArg (frame :: ·) hcalls, rfl⟩
  pop? := Over.pop?
  popFrame? := Over.popFrame?

end Scopes

/-! ### Runs over other arguments -/

def Sides.withOuter (data : List UInt8) (outer outer' : List Record) : Sides :=
  { Sides.equal data with scopes := Scopes.Over outer outer' }

def Pairing.withOuter (setting : Setting) (data : List UInt8) {outer outer' : List Record}
    (top : outer'.head? = outer.head?) : Pairing setting setting where
  toSides := .withOuter data outer outer'
  congruence := Scopes.Over.congruence top
  report _ h := congrArg (· ++ _) h
  short := .inl rfl
  template? _ := .inl rfl
  call {s s'} hs := Env.call_follows rfl rfl fun name _ _ ds ds' h => by
    have offset : (Run.env setting s').offset = (Run.env setting s).offset := hs.offset
    rw [offset]
    exact congrArg (· ++ _) h
  enter := Block.enter_follows rfl

namespace State

def withFrames (s : State) (frames : List Record) : State :=
  { s with scopes := s.scopes.withFrames frames }

/-- The states are the same, but for trace events and for the arguments below `calls`. -/
structure SameOver (calls outer outer' : List Record) (s s' : State) : Prop where
  cursor : s'.cursor = s.cursor
  frames : s.scopes.frames = calls ++ outer
  scopes : s'.scopes = s.scopes.withFrames (calls ++ outer')
  regions : s'.regions = s.regions
  depth : s'.depth = s.depth
  diagnostics : s'.diagnostics = s.diagnostics

end State

theorem Sides.Alike.sameOver {data : List UInt8} {outer outer' : List Record} {s s' : State}
    (h : (Sides.withOuter data outer outer').Alike s s') :
    ∃ calls, State.SameOver calls outer outer' s s' := by
  obtain ⟨calls, frames, scopes⟩ := h.scopes
  exact ⟨calls, h.cursor.trans Cursor.extend_nil, frames, scopes, h.regions, h.depth, h.reported⟩

namespace Block

variable {setting : Setting} {s : State} {outer outer' : List Record}

/-- Over other arguments at the bottom, `m` ends alike. Where it succeeds, the calls under way are
those from before; where it halts, there may be more. -/
structure EndsOver (outer outer' : List Record) (m : Run Unit) (s s' : State) : Prop where
  ok {t : State} : m s = .ok () t →
    ∃ t', m s' = .ok () t' ∧ State.SameOver [] outer outer' t t'
  error {halt : Halt} {t : State} : m s = .error halt t →
    ∃ calls t', m s' = .error halt t' ∧ State.SameOver calls outer outer' t t'

theorem run_endsOver (levels : Nat) (nodes : List Node) (inside : s.Inside)
    (top : outer'.head? = outer.head?) :
    EndsOver outer outer' (run setting (callWithin setting levels) nodes)
      (s.withFrames outer) (s.withFrames outer') := by
  have start : (Sides.withOuter s.cursor.data outer outer').Alike
      (s.withFrames outer) (s.withFrames outer') :=
    ⟨rfl, inside, Cursor.extend_nil.symm, ⟨[], rfl, rfl⟩, rfl, rfl, rfl⟩
  have calls : InStep (.withOuter setting s.cursor.data top) (callWithin setting levels)
      (callWithin setting levels) nodes := callWithin_inStep levels (.inl rfl)
  have pairs := (run_follows calls).pairs _ _ start
  generalize hr : run setting _ nodes (s.withFrames outer) = r at pairs
  generalize hr' : run setting _ nodes (s.withFrames outer') = r' at pairs
  refine ⟨fun {t} ht => ?_, fun {halt t} ht => ?_⟩
  · cases hr.symm.trans ht
    cases pairs with
    | @ok _ _ t' hs =>
      obtain ⟨calls, same⟩ := hs.sameOver
      -- The block is balanced, so no call is left open on top.
      have balanced : t.scopes.frames = outer := (run_balanced (s := s.withFrames outer) inside hr).frames
      obtain rfl : calls = [] := List.append_left_eq_self.mp (same.frames.symm.trans balanced)
      exact ⟨t', hr', same⟩
  · cases hr.symm.trans ht
    cases pairs with
    | @error _ _ t' hs =>
      obtain ⟨calls, same⟩ := hs.sameOver
      exact ⟨calls, t', hr', same⟩
    | partedOk never | partedError never => exact False.elim never

end Block

/-- A block that runs in a call does not depend on the arguments of the calls around that one, and
leaves them as they are: over others it ends alike, and in a state that is the same but for these
arguments. Hence the body of a template, in a call of its own, depends on no arguments but its own,
whatever calls are under way. The cursor is inside the input, as it always is. -/
theorem outer_arguments_unseen (setting : Setting) (levels : Nat) (s : State)
    (inside : s.cursor.offset ≤ s.cursor.length) (frame : Record) (outer outer' : List Record) :
    (∀ nodes, Block.EndsOver (frame :: outer) (frame :: outer')
      (Block.run setting (Block.callWithin setting levels) nodes)
      (s.withFrames (frame :: outer)) (s.withFrames (frame :: outer'))) ∧
    ∀ template, Block.EndsOver (frame :: outer) (frame :: outer')
      (Block.callWithin setting (levels + 1) template)
      (Block.called frame (s.withFrames outer)) (Block.called frame (s.withFrames outer')) :=
  ⟨fun nodes => Block.run_endsOver levels nodes inside rfl,
    fun template => Block.run_endsOver (s := Block.called frame s) levels template.spec inside rfl⟩

namespace DecodeSample

/-- The body of `part` asks for `n`, which is an argument of its caller and not its own. -/
def relay : Setting where
  schema := {
    byteOrder := .big
    templates := [("part", ⟨["m"], [
      .action (.bind "n" (.ref "n")),
      .action (.bytesLenient "b" (.ref "m"))]⟩)]
    spec := [.template "part" (.positional [.ref "n"])] }
  config := .default
  functions := []

/-- In a call with `n`, inside of others. -/
def amidCalls : State where
  cursor := ⟨[1, 2, 3, 4], 1, .big⟩
  scopes := ⟨[("k", .int 1)], [.empty], []⟩
  regions := []
  depth := 0
  log := []

end DecodeSample

open DecodeSample in
theorem outer_arguments_unseen_relay :
    ∃ t t', Block.run relay (Block.callWithin relay 1) relay.schema.spec
        (amidCalls.withFrames [[("n", .int 4)], [("m", .int 0)]]) = .ok () t ∧
      Block.run relay (Block.callWithin relay 1) relay.schema.spec
        (amidCalls.withFrames [[("n", .int 4)], [("n", .int 9), ("m", .int 1)], []]) = .ok () t' ∧
      t'.cursor = t.cursor ∧ t'.scopes.inner = t.scopes.inner ∧ t'.diagnostics = t.diagnostics ∧
      t.scopes.frames = [[("n", .int 4)], [("m", .int 0)]] ∧
      t'.scopes.frames = [[("n", .int 4)], [("n", .int 9), ("m", .int 1)], []] := by
  obtain ⟨blocks, -⟩ := outer_arguments_unseen relay 1 amidCalls (by decide) [("n", .int 4)]
    [[("m", .int 0)]] [[("n", .int 9), ("m", .int 1)], []]
  obtain ⟨_, t, ht⟩ : ∃ a t, Block.run relay (Block.callWithin relay 1) relay.schema.spec
      (amidCalls.withFrames [[("n", .int 4)], [("m", .int 0)]]) = .ok a t :=
    exists_of_succeeds (by decide +kernel)
  obtain ⟨t', ht', same⟩ := (blocks relay.schema.spec).ok ht
  have scopes := same.scopes
  refine ⟨t, t', ht, ht', same.cursor, ?_, same.diagnostics, same.frames, ?_⟩
  · rw [scopes]
    rfl
  · rw [scopes]
    rfl

end ByteSchema
