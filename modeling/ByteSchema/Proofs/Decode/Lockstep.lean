import ByteSchema.Proofs.Decode.Pairing

/-!
# Blocks in step

Decodes that are paired stay in step through actions, loops, regions and calls, and so through
blocks: `run_follows`. With more input behind one of them this is so of strict nodes only.
-/

namespace ByteSchema

/-- Reads all the bytes that it asks for, or fails. -/
def Action.isStrict : Action → Bool
  | .uint .. | .int .. | .ascii .. | .bytes .. | .skip .. | .bitfield .. | .vintId .. | .vintSize ..
  | .assert .. | .bind .. | .set .. => true
  | .bytesLenient .. | .skipIfOdd .. | .align .. | .skipBlank | .peekBytes .. | .asciiUntil ..
  | .bytesUntil .. | .bytesUntilMarker .. => false

/-- Does not ask where the input ends, other than by a read of more than there is. -/
def Node.isStrict : Node → Bool
  | .action a => a.isStrict
  | .list _ _ count stopWhen readUntil _ => count.isSome || stopWhen.isSome || readUntil.isSome
  | .bounded .. => false
  | .template .. | .branch .. | .switch .. | .withByteOrder .. => true

section

variable {A B : Setting} {α : Type} {p : Pairing A B}

/-! ### Actions -/

namespace Action

theorem readField_follows {f : Nat → Cursor → Except Error (Value × Cursor)}
    (hreads : ∀ n, Reads A (f n)) (hstrict : ∀ n, Strict (f n)) (id : String) (length : Term) :
    Follows p.pace (readField A id length f) (readField B id length f) :=
  (Follows.evalLength length).bind fun n =>
    (Follows.read (hreads n) (.inr (hstrict n))).bind fun v => .write id v

theorem runLenient_follows (htail : p.tail = []) (id : String) (length : Term) :
    Follows p.pace (runLenient A id length) (runLenient B id length) := by
  refine (Follows.evalLength length).bind fun n => .cursor_bind htail (fun c => ?_)
    fun c hdata hinside => ?_
  · refine .bind (.still fun _ => rfl) fun _ => ?_
    split
    · exact .bind (Run.log_grows) fun _ => .still fun _ => rfl
    · exact .still fun _ => rfl
  · have ahead := Cursor.takeLenient_ahead (n := n) hinside
    refine (Follows.setCursor htail (ahead.data.trans hdata) ahead.inside).bind fun _ => ?_
    split
    · next short =>
      have taken : (c.rest.take n).length = min n c.remaining := by
        simp [Cursor.rest, Cursor.remaining, Cursor.length]
      refine (Follows.report (.truncated ?_ short)).bind fun _ => .write id _
      rw [taken, ← hdata]
      rw [taken] at short
      simp only [Cursor.remaining, Cursor.length] at short hinside ⊢
      omega
    · exact .write id _

theorem runBits_follows (id : Option String) (entries : List BitField) :
    Follows p.pace (runBits id entries) (runBits id entries) := by
  refine (Follows.read Cursor.readByte_reads (.inr Cursor.readByte_strict)).bind fun byte =>
    Follows.ofExcept.bind fun fields => ?_
  cases id with
  | none => exact .mapTarget _
  | some id => exact (Follows.write id _).bind fun _ => .mapTarget _

theorem runVint_follows (id : String) (keepMarker : Bool) :
    Follows p.pace (runVint id keepMarker) (runVint id keepMarker) :=
  (Follows.read (Vint.read_reads keepMarker) (.inr (Vint.read_strict keepMarker))).bind
    fun _ => .write id _

theorem basisOffset_follows (basis : Basis) :
    Follows p.pace (basisOffset A basis) (basisOffset B basis) := by
  cases basis with
  | scope =>
    refine ⟨.still fun s => ?_, fun s s' hs => ?_⟩
    · simp [Ends, basisOffset_scope]
    · rw [basisOffset_scope, basisOffset_scope, hs.regions]
      exact .ok hs
  | global => exact .pure
  | term t => exact .evalLength t

theorem checked_follows {x : Option Nat} : Follows p.pace (Run.checked x) (Run.checked x) := by
  cases x with
  | none => exact .throw
  | some n => exact .pure

theorem runAlign_follows (htail : p.tail = []) (multiple : Term) (basis : Basis) :
    Follows p.pace (runAlign A multiple basis) (runAlign B multiple basis) := by
  refine (Follows.evalLength multiple).bind fun n => ?_
  split
  · exact .throw
  · exact (basisOffset_follows basis).bind fun base => Follows.offset.bind fun offset =>
      checked_follows.bind fun position =>
        .move htail (f := fun c => c.skipLenient (position - offset)) fun _ h =>
          Cursor.skipLenient_ahead h

theorem readRun_follows (htail : p.tail = []) {f : Nat → Cursor → Except Error (Value × Cursor)}
    (hreads : ∀ n, Reads A (f n)) (id : String) (scan : List UInt8 → Nat) :
    Follows p.pace (readRun id scan f) (readRun id scan f) :=
  (Follows.read (fun c => hreads (scan c.rest) c) (.inl htail)).bind fun v => .write id v

theorem runSkip_follows (length : Term) :
    Follows p.pace ((Action.skip length).run A) ((Action.skip length).run B) := by
  simp only [run, Run.skip_eq]
  exact (Follows.evalLength length).bind fun n =>
    .read (Cursor.skip_reads n) (.inr (Cursor.skip_strict n))

theorem run_follows (a : Action) (h : p.tail = [] ∨ a.isStrict = true) :
    Follows p.pace (a.run A) (a.run B) := by
  cases a with
  | uint id length => exact readField_follows uintField_reads uintField_strict id length
  | int id length => exact readField_follows intField_reads intField_strict id length
  | ascii id length => exact readField_follows asciiField_reads asciiField_strict id length
  | bytes id length => exact readField_follows bytesField_reads bytesField_strict id length
  | skip length => exact runSkip_follows length
  | bitfield id fields => exact runBits_follows id fields
  | vintId id => exact runVint_follows id true
  | vintSize id => exact runVint_follows id false
  | assert condition message =>
    refine (Follows.evalTruth condition).bind fun b => ?_
    split
    · exact .pure
    · exact Follows.offset.bind fun _ => .throw
  | bind id value => exact (Follows.eval value).bind fun v => .write id v
  | set id value =>
    exact (Follows.eval value).bind fun v => .mapScopes fun _ _ => p.congruence.assign id v
  | bytesLenient id length => exact runLenient_follows (h.resolve_right nofun) id length
  | skipIfOdd ref =>
    refine (Follows.eval ref).bind fun v => Follows.ofExcept.bind fun x => ?_
    split
    · exact .move (h.resolve_right nofun) fun _ h => Cursor.skipLenient_ahead h
    · exact .pure
  | align multiple basis => exact runAlign_follows (h.resolve_right nofun) multiple basis
  | skipBlank =>
    exact .move (h.resolve_right nofun) (f := fun c => c.skipLenient (Scan.blanks c.rest))
      fun _ h => Cursor.skipLenient_ahead h
  | peekBytes id length =>
    exact (Follows.evalLength length).bind fun n =>
      .cursor_bind (h.resolve_right nofun) (fun _ => .still fun _ => rfl) fun c _ _ => .write id _
  | asciiUntil id terminators limit =>
    exact (Follows.evalLimit limit).bind fun _ =>
      readRun_follows (h.resolve_right nofun) asciiField_reads id _
  | bytesUntil id sequence limit =>
    exact (Follows.evalLimit limit).bind fun _ =>
      readRun_follows (h.resolve_right nofun) bytesField_reads id _
  | bytesUntilMarker id marker values ranges =>
    exact readRun_follows (h.resolve_right nofun) bytesField_reads id _

end Action

/-! ### Levels and scopes -/

namespace Block

theorem nested_follows {body body' : Run Unit} (h : Follows p.pace body body') :
    Follows p.pace (nested A body) (nested B body') :=
  p.enter.bind fun _ => h.bind fun _ => .modify (fun _ => rfl) fun _ _ hs =>
    { hs with depth := congrArg (· - 1) hs.depth }

theorem inScope_follows {body body' : Run Unit} {after after' : Run α}
    (h : Follows p.pace body body') (hafter : Follows p.pace after after') :
    Follows p.pace (inScope body after) (inScope body' after') :=
  (Follows.mapScopes fun _ _ => p.congruence.push).bind fun _ => h.bind fun _ =>
    hafter.bind fun _ => Follows.popScope.bind fun _ => .pure

theorem condition_follows (absent : Bool) (term : Option Term) :
    Follows p.pace (condition A absent term) (condition B absent term) := by
  cases term with
  | none => exact .pure
  | some term => exact .evalTruth term

theorem listItem_follows {body body' : Run Unit} (h : Follows p.pace body body') (id : String)
    (stopWhen emitWhen : Option Term) :
    Follows p.pace (listItem A id stopWhen emitWhen body)
      (listItem B id stopWhen emitWhen body') := by
  refine (inScope_follows h ((condition_follows false stopWhen).bind fun _ =>
    (condition_follows true emitWhen).bind fun _ => .pure)).bind fun ((stop, emit), item) => ?_
  dsimp only
  split
  · exact (Follows.mapTarget _).bind fun _ => .pure
  · exact .pure

theorem regionItem_follows {body body' : Run Unit} (h : Follows p.pace body body')
    (id : String) : Follows p.pace (regionItem id body) (regionItem id body') :=
  (inScope_follows h .pure).bind fun _ => .mapTarget _

/-! ### Lists -/

theorem counted_follows {item item' : Run Bool} (h : Follows p.pace item item') (n : Nat) :
    Follows p.pace (counted item n) (counted item' n) := by
  induction n with
  | zero => exact .pure
  | succ n ih =>
    refine h.bind fun last => ?_
    split
    · exact .pure
    · exact ih

theorem stalls_grows {loop : Run Unit} (h : Grows State.diagnostics loop)
    (node : String) (start : Nat) : Grows State.diagnostics (do
      if (← Run.offset) = start then Run.report (.stalled node start) else loop) := by
  refine .bind (.still fun _ => rfl) fun offset => ?_
  split
  · exact Run.log_grows
  · exact h

theorem atRegionEnd_apply (s : State) :
    atRegionEnd s = .ok (decide (regionEnd s ≤ s.cursor.offset)) s := by
  obtain ⟨cursor, scopes, regions, depth, log⟩ := s
  cases regions <;> rfl

theorem uncounted_grows {item : Run Bool} (h : Grows State.diagnostics item)
    (toEnd : Bool) (fuel : Nat) :
    Grows State.diagnostics (uncounted toEnd item fuel) := by
  induction fuel with
  | zero => exact .throw
  | succ fuel ih =>
    refine .bind (.still fun s => by rw [ends_atRegionEnd]) fun _ => ?_
    split
    · exact .pure
    · refine .bind (.still fun _ => rfl) fun start => h.bind fun last => ?_
      split
      · exact .pure
      · exact stalls_grows ih "list" start

/-- The longer input gives the second loop more rounds than the first one has, but both stop at
the same item. -/
theorem uncounted_pairs {item item' : Run Bool} (hkeeps : Keeps (Invariant.causes A p.data) item)
    (h : Follows p.pace item item') {toEnd : Bool} (htail : p.tail = [] ∨ toEnd = false)
    {fuel fuel' : Nat} {s s' : State} (hs : p.Alike s s') (enough : s.cursor.remaining < fuel)
    (enough' : s.cursor.remaining < fuel') :
    p.pace.Pairs (uncounted toEnd item fuel s) (uncounted toEnd item' fuel' s') := by
  induction fuel generalizing fuel' s s' with
  | zero => exact absurd enough (Nat.not_lt_zero _)
  | succ fuel ih =>
    obtain ⟨fuel', rfl⟩ : ∃ n, fuel' = n + 1 := ⟨fuel' - 1, by omega⟩
    have same : (toEnd && decide (regionEnd s ≤ s.cursor.offset)) =
        (toEnd && decide (regionEnd s' ≤ s'.cursor.offset)) := by
      obtain htail | rfl := htail
      · have cursor : s'.cursor = s.cursor := by rw [hs.cursor, htail, Cursor.extend_nil]
        have stop : regionEnd s' = regionEnd s := by rw [regionEnd, regionEnd, hs.regions, cursor]
        rw [stop, cursor]
      · rfl
    rw [uncounted, uncounted, run_bind, run_bind, atRegionEnd_apply, atRegionEnd_apply]
    dsimp only
    rw [← same]
    split
    · exact .ok hs
    · have next_grows (start : Nat) (last : Bool) :
          Grows State.diagnostics (if last then pure () else do
            if (← Run.offset) = start then Run.report (.stalled "list" start)
            else uncounted toEnd item' fuel') := by
        split
        · exact .pure
        · exact stalls_grows (uncounted_grows h.grows toEnd fuel') "list" start
      refine (Follows.offset.pairs s s' hs).bind (fun start => h.grows.bind (next_grows start))
        fun start u u' hu hs => ?_
      cases hu
      refine (h.pairs s u' hs).bind (next_grows _) fun last t t' ht hst => ?_
      split
      · exact .ok hst
      · show p.pace.Pairs
          ((if t.cursor.offset = s.cursor.offset then Run.report (.stalled "list" s.cursor.offset)
            else uncounted toEnd item fuel) t)
          ((if t'.cursor.offset = s.cursor.offset then Run.report (.stalled "list" s.cursor.offset)
            else uncounted toEnd item' fuel') t')
        rw [hst.offset]
        split
        · exact (Follows.report (.stalledList (hs.data ▸ hs.inside))).pairs t t' hst
        · next moved =>
          -- A byte less is left, which makes up for the round on both sides.
          have less := ((hkeeps s hs.before).of_ok ht).remaining_lt moved
          exact ih hst (by omega) (by omega)

theorem uncounted_follows {item item' : Run Bool}
    (hkeeps : Keeps (Invariant.causes A p.data) item) (h : Follows p.pace item item')
    {toEnd : Bool} (htail : p.tail = [] ∨ toEnd = false) :
    Follows p.pace (do uncounted toEnd item ((← Run.cursor).remaining + 1))
      (do uncounted toEnd item' ((← Run.cursor).remaining + 1)) where
  grows := .bind (.still fun _ => rfl) fun _ => uncounted_grows h.grows toEnd _
  pairs s s' hs := by
    show p.pace.Pairs (uncounted toEnd item (s.cursor.remaining + 1) s)
      (uncounted toEnd item' (s'.cursor.remaining + 1) s')
    have more : s.cursor.remaining ≤ s'.cursor.remaining := by
      rw [Cursor.remaining, Cursor.remaining, hs.offset, hs.cursor, Cursor.length_extend]
      omega
    exact uncounted_pairs hkeeps h htail hs (Nat.lt_succ_self _) (Nat.lt_succ_of_le more)

theorem runList_follows {body body' : Run Unit} (hkeeps : Keeps (Invariant.causes A p.data) body)
    (h : Follows p.pace body body') (id : String) {count stopWhen : Option Term}
    (htail : p.tail = [] ∨ count.isSome ∨ stopWhen.isSome) (emitWhen : Option Term) :
    Follows p.pace (runList A id count stopWhen emitWhen body)
      (runList B id count stopWhen emitWhen body') := by
  have hitem := listItem_keeps hkeeps id stopWhen emitWhen
  have hitems := listItem_follows h id stopWhen emitWhen
  have start {next next' : Run Unit} (hnext : Follows p.pace next next') (count : Option Nat) :
      Follows p.pace
        (do Run.log (.list id (← Run.offset) count); Run.write id (.list []); next)
        (do Run.log (.list id (← Run.offset) count); Run.write id (.list []); next') :=
    Follows.offset.bind fun _ => (Follows.log rfl rfl).bind fun _ =>
      (Follows.write id _).bind fun _ => hnext
  cases count with
  | some term =>
    simp only [runList, Run.evalLimit, bind_assoc, pure_bind]
    exact (Follows.evalLength term).bind fun n => start (counted_follows hitems n) (some n)
  | none =>
    have ended : p.tail = [] ∨ stopWhen.isNone = false := by
      cases stopWhen <;> simp_all
    exact start (uncounted_follows hitem hitems ended) none

/-! ### Regions -/

variable {setting : Setting} {id : String} {body body' : Run Unit}

theorem fill_grows {item : Run Unit} (h : Grows State.diagnostics item) (stop fuel : Nat) :
    Grows State.diagnostics (fill stop item fuel) := by
  induction fuel with
  | zero => exact .throw
  | succ fuel ih =>
    refine .bind (.still fun _ => rfl) fun start => ?_
    split
    · exact h.bind fun _ => stalls_grows ih "bounded" start
    · exact .pure

theorem fill_follows {item item' : Run Unit} (h : Follows p.pace item item') {stop : Nat}
    (hstop : stop ≤ p.data.length) (fuel : Nat) :
    Follows p.pace (fill stop item fuel) (fill stop item' fuel) := by
  induction fuel with
  | zero => exact .throw
  | succ fuel ih =>
    refine Follows.offset.bind fun start => ?_
    split
    · next before =>
      refine h.bind fun _ => Follows.offset.bind fun offset => ?_
      split
      · exact .report (.stalledRegion (Nat.lt_of_lt_of_le before hstop))
      · exact ih
    · exact .pure

theorem fill_past {item : Run Unit} {stop fuel : Nat} {s : State} (h : stop ≤ s.cursor.offset) :
    fill stop item (fuel + 1) s = .ok () s := by
  have done : Ends (fill stop item (fuel + 1)) s (fun _ t => t = s) fun _ _ => False := by
    rw [fill, ends_bind, Run.ends_offset, if_neg (Nat.not_lt_of_le h)]
    rfl
  obtain ⟨_, _, hfill, rfl⟩ := done.exists_ok
  exact hfill

theorem opened_diagnostics (id : String) (stop : Nat) (s : State) :
    (opened id stop s).diagnostics = s.diagnostics :=
  (Log.diagnostics_cons _ _).trans (List.append_nil _)

theorem opened_alike (id : String) (stop : Nat) {s s' : State}
    (hs : p.Alike s s') : p.Alike (opened id stop s) (opened id stop s') where
  data := hs.data
  inside := hs.inside
  cursor := hs.cursor
  scopes := p.congruence.mapTarget _ hs.scopes
  regions := by
    show _ :: s'.regions = _ :: s.regions
    rw [hs.regions, hs.offset]
  depth := hs.depth
  reported := by
    rw [opened_diagnostics, opened_diagnostics]
    exact hs.reported

theorem closed_diagnostics (start stop : Nat) (s : State) : (closed start stop s).diagnostics =
    s.diagnostics ++ if stop < s.cursor.offset then
      [.regionOverrun start stop s.cursor.offset] else [] := by
  unfold closed
  split
  · exact Log.diagnostics_cons _ _
  · exact (List.append_nil _).symm

/-- An empty region has no items, so it is never overrun. -/
theorem closed_alike (htail : p.tail = []) {start stop : Nat} {s s' : State} (hs : p.Alike s s')
    (hempty : stop < s.cursor.offset → start < stop) :
    p.Alike (closed start stop s) (closed start stop s') where
  data := hs.data
  inside := Nat.min_le_right _ _
  cursor := by
    show s'.cursor.seek stop = (s.cursor.seek stop).extend p.tail
    rw [hs.cursor, htail, Cursor.extend_nil, Cursor.extend_nil]
  scopes := hs.scopes
  regions := congrArg (List.drop 1) hs.regions
  depth := hs.depth
  reported := by
    rw [closed_diagnostics, closed_diagnostics, hs.offset]
    split
    · next beyond =>
      exact p.report (.overrun (hempty beyond) beyond (hs.data ▸ hs.inside)) hs.reported
    · rw [List.append_nil, List.append_nil]
      exact hs.reported

theorem inRegion_follows (htail : p.tail = []) (h : Follows p.pace body body') (id : String)
    (n : Nat) : Follows p.pace (inRegion id body n) (inRegion id body' n) := by
  have closed_grows (start stop : Nat) : Grows State.diagnostics
      (modify (closed start stop) : Run Unit) := by
    intro s
    rw [ends_modify, closed_diagnostics]
    exact List.prefix_append _ _
  refine ⟨fun s => ?_, fun s s' hs => ?_⟩
  · have grows := (fill_grows (regionItem_follows h id).grows (regionStop s n)
      (regionStop s n - s.cursor.offset + 1)).bind fun _ =>
        closed_grows s.cursor.offset (regionStop s n)
    have grown := grows (opened id (regionStop s n) s)
    rw [opened_diagnostics] at grown
    exact grown
  · have cursor : s'.cursor = s.cursor := by rw [hs.cursor, htail, Cursor.extend_nil]
    have size : regionStop s n ≤ p.data.length := hs.data ▸ Nat.min_le_right _ _
    have stop : regionStop s' n = regionStop s n := by rw [regionStop, regionStop, cursor]
    have filled := fill_follows (regionItem_follows h id) size
      (regionStop s n - s.cursor.offset + 1)
    unfold inRegion
    rw [stop, cursor]
    refine (filled.pairs _ _ (opened_alike id _ hs)).bind (fun _ => closed_grows _ _)
      fun _ t t' ht hst => .ok (closed_alike htail hst fun beyond => ?_)
    -- Nothing runs in an empty region, so the cursor is still where the region ends.
    refine Nat.lt_of_not_le fun empty => ?_
    have still : regionStop s n - s.cursor.offset = 0 := Nat.sub_eq_zero_of_le empty
    rw [still, fill_past (s := opened id (regionStop s n) s) empty] at ht
    cases ht
    exact absurd beyond (Nat.not_lt_of_le (start_le_regionStop hs.inside n))

theorem runBounded_follows (htail : p.tail = []) (h : Follows p.pace body body') (id : String)
    (length : Term) :
    Follows p.pace (runBounded A id length body) (runBounded B id length body') := by
  rw [runBounded_eq, runBounded_eq]
  exact (Follows.evalLength length).bind fun n => inRegion_follows htail h id n

/-! ### Template calls -/

theorem bindAll_follows (frame : Record) (terms : List (String × Term)) :
    Follows p.pace (bindAll A frame terms) (bindAll B frame terms) := by
  induction terms generalizing frame with
  | nil => exact .pure
  | cons field rest ih => exact (Follows.evalNumber field.2).bind fun v => ih _

theorem bind_follows (name : String) (parameters : List String) (arguments : Arguments) :
    Follows p.pace (bind A name parameters arguments) (bind B name parameters arguments) := by
  cases arguments with
  | named terms => exact bindAll_follows _ terms
  | positional terms =>
    simp only [bind]
    split
    · exact .throw
    · exact bindAll_follows _ _

theorem bind_grows (name : String) (parameters : List String) (arguments : Arguments) :
    Grows State.diagnostics (bind setting name parameters arguments) :=
  (bind_follows (p := .same setting) name parameters arguments).grows

theorem frames_of_popScope {s t : State} {r : Record} (h : Run.popScope s = .ok r t) :
    t.scopes.frames = s.scopes.frames := by
  rw [Run.popScope_apply] at h
  cases hinner : s.scopes.inner with
  | nil => simp [Scopes.pop?, hinner] at h
  | cons inner rest =>
    simp only [Scopes.pop?, hinner] at h
    cases h
    rfl

theorem return_grows (fields : Record) : Grows State.diagnostics (do
    Run.popFrame
    Run.mapScopes fun s => s.mapTarget fun r => r.merge fields) :=
  Run.popFrame_grows.bind fun _ => .still fun _ => rfl

theorem enterCall_grows (h : Grows State.diagnostics body) (frame : Record) :
    Grows State.diagnostics (enterCall body frame) :=
  .bind (.still fun _ => rfl) fun _ => h.bind fun _ => Run.popScope_grows.bind return_grows

/-- The frame that a call pushed is the one that it pops, whatever frames are below. -/
theorem enterCall_follows (hkeeps : Keeps (Invariant.causes A p.data) body)
    (h : Follows p.pace body body') (frame : Record) :
    Follows p.pace (enterCall body frame) (enterCall body' frame) := by
  refine ⟨enterCall_grows h.grows frame, fun s s' hs => ?_⟩
  have called : p.Alike (called frame s) (called frame s') :=
    { hs with scopes := p.congruence.push (p.congruence.pushFrame frame hs.scopes) }
  refine (h.pairs _ _ called).bind (fun _ => Run.popScope_grows.bind return_grows)
    fun _ t t' ht hst => ?_
  have balanced : Balanced _ t := (hkeeps _ called.before).of_ok ht
  refine (Follows.popScope.pairs t t' hst).bind return_grows fun fields u u' hu hsu => ?_
  -- The body is balanced, so the frame of this call is on top again.
  have frames : u.scopes.frames = frame :: s.scopes.frames :=
    (frames_of_popScope hu).trans balanced.frames
  obtain ⟨scopes', hpop', hscopes⟩ := p.congruence.popFrame? hs.scopes hsu.scopes frames
  have hpop : u.scopes.popFrame? = some { u.scopes with frames := s.scopes.frames } := by
    rw [Scopes.popFrame?, frames]
  rw [run_bind, run_bind, Run.popFrame_of_some hpop, Run.popFrame_of_some hpop']
  exact (Follows.mapTarget _).pairs _ _ { hsu with scopes := hscopes }

theorem invoke_grows {name : String} {parameters : List String} {arguments : Arguments}
    (h : Grows State.diagnostics body) :
    Grows State.diagnostics (invoke setting name parameters arguments body) :=
  (bind_grows name parameters arguments).bind fun frame => .bind (.still fun _ => rfl) fun _ =>
    .bind (Run.log_grows) fun _ => enterCall_grows h frame

theorem invoke_follows (hkeeps : Keeps (Invariant.causes A p.data) body)
    (h : Follows p.pace body body') {name : String} {parameters : List String}
    {arguments : Arguments} :
    Follows p.pace (invoke A name parameters arguments body)
      (invoke B name parameters arguments body') :=
  (bind_follows name parameters arguments).bind fun frame => Follows.offset.bind fun _ =>
    (Follows.log rfl rfl).bind fun _ => enterCall_follows hkeeps h frame

theorem runTemplate_follows {call call' : Call} (hgrows : ∀ template,
    Grows State.diagnostics (call' template)) {name : String} {arguments : Arguments}
    (hkeeps : ∀ template, A.schema.template? name = .ok template →
      Keeps (Invariant.causes A p.data) (call template))
    (h : ∀ template, A.schema.template? name = .ok template →
      Follows p.pace (call template) (call' template)) :
    Follows p.pace (runTemplate A call name arguments) (runTemplate B call' name arguments) := by
  refine ⟨.bind Run.ofExcept_grows fun template => invoke_grows (hgrows template),
    fun s s' hs => ?_⟩
  rw [runTemplate_eq, runTemplate_eq]
  obtain same | ⟨e, he, parted⟩ := p.template? name
  · rw [same]
    cases hfound : A.schema.template? name with
    | error e => exact .error hs
    | ok template =>
      exact (invoke_follows (hkeeps template hfound) (h template hfound)).pairs s s' hs
  · rw [he]
    exact .of_grows (.bind Run.ofExcept_grows fun template => invoke_grows (hgrows template))
      (parted _ _ hs.reported)

/-! ### Nodes -/

theorem inOrder_follows (h : Follows p.pace body body') (order : ByteOrder) :
    Follows p.pace (inOrder order body) (inOrder order body') := by
  have restored (saved : ByteOrder) : Follows p.pace
      (do Run.setOrder order; body; Run.setOrder saved)
      (do Run.setOrder order; body'; Run.setOrder saved) :=
    (Follows.setOrder order).bind fun _ => h.bind fun _ => .setOrder saved
  refine ⟨.bind (.still fun _ => rfl) fun c => (restored c.order).grows, fun s s' hs => ?_⟩
  show p.pace.Pairs ((do Run.setOrder order; body; Run.setOrder s.cursor.order) s)
    ((do Run.setOrder order; body'; Run.setOrder s'.cursor.order) s')
  rw [hs.order]
  exact (restored s.cursor.order).pairs s s' hs

/-- What lets decodes stay in step through `nodes`: calls that do, and strict nodes wherever there
is more input behind one of them. -/
structure InStep (p : Pairing A B) (call call' : Call) (nodes : List Node) : Prop where
  strict : p.tail = [] ∨ ∀ node, Occurs A.schema nodes node → node.isStrict = true
  keeps : ∀ template, Keeps (Invariant.causes A p.data) (call template)
  grows : ∀ template, Grows State.diagnostics (call' template)
  follows : ∀ name arguments template, Occurs A.schema nodes (.template name arguments) →
    A.schema.template? name = .ok template → Follows p.pace (call template) (call' template)

variable {call call' : Call}

theorem InStep.of_occurs {nodes inner : List Node} (h : InStep p call call' nodes)
    (hinner : ∀ {node}, Occurs A.schema inner node → Occurs A.schema nodes node) :
    InStep p call call' inner where
  strict := h.strict.imp_right fun strict node hnode => strict node (hinner hnode)
  keeps := h.keeps
  grows := h.grows
  follows name arguments template hname := h.follows name arguments template (hinner hname)

theorem runAll_follows_of {nodes : List Node}
    (h : ∀ node ∈ nodes, Follows p.pace (runNode A call node) (runNode B call' node)) :
    Follows p.pace (runAll A call nodes) (runAll B call' nodes) := by
  induction nodes with
  | nil => exact .pure
  | cons node rest ih =>
    obtain ⟨hnode, hrest⟩ := List.forall_mem_cons.mp h
    exact hnode.bind fun _ => ih hrest

theorem runNode_follows (node : Node) (h : InStep p call call' [node]) :
    Follows p.pace (runNode A call node) (runNode B call' node) := by
  induction node using Node.induct with
  | step node ih =>
    have block {spec : List Node} (hspec : ∀ child ∈ spec, child ∈ node.children) :
        Follows p.pace (run A call spec) (run B call' spec) :=
      nested_follows (runAll_follows_of fun child hchild =>
        ih child (hspec child hchild) (h.of_occurs (.of_child (hspec child hchild))))
    have keeps (spec : List Node) : Keeps (Invariant.causes A p.data) (run A call spec) :=
      run_keeps fun _ _ template _ _ => h.keeps template
    have self : Occurs A.schema [node] node := .here (List.mem_singleton.mpr rfl)
    have strict : p.tail = [] ∨ node.isStrict = true := h.strict.imp_right fun strict =>
      strict node self
    cases node with
    | action a => exact a.run_follows strict
    | list id items count stopWhen readUntil emitWhen =>
      have ended : p.tail = [] ∨ count.isSome ∨ (stopWhen.or readUntil).isSome := by
        simpa [Node.isStrict, or_assoc] using strict
      exact runList_follows (keeps items) (block fun _ h => h) id ended emitWhen
    | template name arguments =>
      exact runTemplate_follows h.grows (fun template _ => h.keeps template)
        fun template => h.follows name arguments template self
    | branch condition spec otherwise =>
      refine (Follows.evalTruth condition).bind fun b => ?_
      split
      · exact block fun _ => List.mem_append_left _
      · exact block fun _ => List.mem_append_right _
    | switch on cases default =>
      rw [runNode_switch, runNode_switch]
      refine (Follows.eval on).bind fun v => ?_
      dsimp only
      cases hspec : Node.chosen v.display cases default with
      | some spec => exact block fun _ => Node.mem_children_of_chosen hspec
      | none => exact .log rfl rfl
    | bounded id length spec =>
      exact runBounded_follows (strict.resolve_right nofun) (block fun _ h => h) id length
    | withByteOrder order spec => exact inOrder_follows (block fun _ h => h) order

theorem runAll_follows {nodes : List Node} (h : InStep p call call' nodes) :
    Follows p.pace (runAll A call nodes) (runAll B call' nodes) :=
  runAll_follows_of fun node hnode => runNode_follows node (h.of_occurs (.of_member hnode))

theorem run_follows {nodes : List Node} (h : InStep p call call' nodes) :
    Follows p.pace (run A call nodes) (run B call' nodes) :=
  nested_follows (runAll_follows h)

/-! ### Calls -/

theorem causes_exhausted {data : List UInt8} (s : State) (_ : (Invariant.causes A data).before s) :
    (Invariant.causes A data).halts .exhausted s := by
  rintro _ ⟨⟩

theorem callWithin_grows (levels : Nat) (template : Template) :
    Grows State.diagnostics (callWithin setting levels template) := by
  have same (levels : Nat) : ∀ template, Follows (Pairing.same setting).pace
      (callWithin setting levels template) (callWithin setting levels template) := by
    induction levels with
    | zero => exact fun _ => .throw
    | succ levels ih =>
      exact fun _ => run_follows ⟨.inl rfl, callWithin_keeps causes_exhausted levels,
        fun template => (ih template).grows, fun _ _ template _ _ => ih template⟩
  exact (same levels template).grows

/-- Blocks stay in step, with template calls nested equally deep. -/
theorem callWithin_inStep (levels : Nat) {nodes : List Node}
    (strict : p.tail = [] ∨ ∀ node, Occurs A.schema nodes node → node.isStrict = true) :
    InStep p (callWithin A levels) (callWithin B levels) nodes where
  strict := strict
  keeps := callWithin_keeps causes_exhausted levels
  grows := callWithin_grows levels
  follows name arguments template hname htemplate := by
    induction levels generalizing nodes name arguments template with
    | zero => exact .throw
    | succ levels ih =>
      have inner : p.tail = [] ∨
          ∀ node, Occurs A.schema template.spec node → node.isStrict = true :=
        strict.imp_right fun strict node hnode => strict node (hnode.trans fun _ hmem =>
          .called hname htemplate hmem)
      exact run_follows ⟨inner, callWithin_keeps causes_exhausted levels, callWithin_grows levels,
        ih inner⟩

end Block

end

end ByteSchema
