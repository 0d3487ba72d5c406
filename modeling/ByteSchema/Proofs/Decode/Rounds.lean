import ByteSchema.Proofs.Decode.Balance
import ByteSchema.Proofs.Decode.Frame

/-!
# The items of a region

`Rounds` are the runs of a body one after the other, each in a scope of its own whose record is
appended to the list. A `bounded` node is such a chain that `Fills` its region: it ends where the
region does or at an item that consumes nothing, and not before.
-/

namespace ByteSchema

/-- One item of a region: where the cursor was before and after it, and its record. -/
structure Round where
  start : Nat
  stop : Nat
  item : Record

namespace Block

/-- The state after an item, given the one that the body ended in and the scopes around it. -/
def emitted (id : String) (item : Record) (scopes : Scopes) (s : State) : State :=
  { s with scopes := scopes.mapTarget fun r => r.pushItem id (.record item) }

/-- The body runs from `s` to `u`, once for every round. -/
inductive Rounds (id : String) (body : Run Unit) : State → List Round → State → Prop where
  | done {s : State} : Rounds id body s [] s
  | next {s t u : State} {item : Record} {scopes : Scopes} {rest : List Round} :
      body { s with scopes := s.scopes.push } = .ok () t → t.scopes.pop? = some (item, scopes) →
      Rounds id body (emitted id item scopes t) rest u →
      Rounds id body s (⟨s.cursor.offset, t.cursor.offset, item⟩ :: rest) u

/-- How rounds from `start` on fill a region up to `stop`. -/
structure Fills (start stop : Nat) (rounds : List Round) : Prop where
  none_iff : rounds = [] ↔ stop ≤ start
  few : rounds.length ≤ stop - start
  starts : ∀ r ∈ rounds, start ≤ r.start ∧ r.start < stop
  ahead : ∀ r ∈ rounds.dropLast, r.start < r.stop
  last : ∀ r ∈ rounds.getLast?, r.stop = r.start ∨ stop ≤ r.stop

namespace Fills

variable {start stop next : Nat} {item : Record} {rest : List Round}

theorem nil (h : stop ≤ start) : Fills start stop [] where
  none_iff := ⟨fun _ => h, fun _ => rfl⟩
  few := Nat.zero_le _
  starts := List.forall_mem_nil _
  ahead := List.forall_mem_nil _
  last := nofun

/-- An item that consumes nothing is the last. -/
theorem stalled (h : start < stop) : Fills start stop [⟨start, start, item⟩] where
  none_iff := by simp [h]
  few := by simp; omega
  starts := by simp [h]
  ahead := List.forall_mem_nil _
  last := by simp

theorem cons (h : start < stop) (ahead : start < next) (hrest : Fills next stop rest) :
    Fills start stop (⟨start, next, item⟩ :: rest) where
  none_iff := by simp [h]
  few := by
    have few := hrest.few
    simp only [List.length_cons]
    omega
  starts := by
    refine List.forall_mem_cons.mpr ⟨⟨Nat.le_refl _, h⟩, fun r hr => ?_⟩
    obtain ⟨hstart, hstop⟩ := hrest.starts r hr
    exact ⟨Nat.le_of_lt (Nat.lt_of_lt_of_le ahead hstart), hstop⟩
  ahead := by
    cases rest with
    | nil => exact List.forall_mem_nil _
    | cons r rest => exact List.forall_mem_cons.mpr ⟨ahead, hrest.ahead⟩
  last := by
    cases rest with
    | nil =>
      rintro r ⟨⟩
      exact .inr (hrest.none_iff.mp rfl)
    | cons r rest => exact fun last hlast => hrest.last last hlast

end Fills

/-- The event at the end of rounds of which the last one consumed nothing. -/
def stalls (rounds : List Round) : Log :=
  match rounds.getLast? with
  | some last => if last.stop = last.start then [.diagnostic (.stalled "bounded" last.start)] else []
  | none => []

theorem stalls_cons {r : Round} {rest : List Round} (moved : r.stop ≠ r.start) :
    stalls (r :: rest) = stalls rest := by
  cases rest with
  | nil => exact if_neg moved
  | cons next rest => rfl

/-- The events at the end of a region, the newest first: whether its last round left the cursor
past the region, and whether that round consumed nothing. -/
def reports (start stop : Nat) (rounds : List Round) : Log :=
  match rounds.getLast? with
  | some last =>
    (if stop < last.stop then [.diagnostic (.regionOverrun start stop last.stop)] else []) ++
    (if last.stop = last.start then [.diagnostic (.stalled "bounded" last.start)] else [])
  | none => []

variable {setting : Setting} {i : Invariant setting} {id : String} {body : Run Unit}

/-- The cursor is where the last round left it. -/
theorem Rounds.offset_eq {s u : State} {rounds : List Round} (h : Rounds id body s rounds u) :
    u.cursor.offset = (rounds.getLast?.map Round.stop).getD s.cursor.offset := by
  induction h with
  | done => rfl
  | next _ _ _ ih =>
    rw [ih, List.getLast?_cons]
    cases List.getLast? _ <;> rfl

/-- An item of a region is one round. -/
theorem regionItem_round (s : State) : Ends (regionItem id body) s (fun _ t =>
      ∃ v item scopes, body { s with scopes := s.scopes.push } = .ok () v ∧
        v.scopes.pop? = some (item, scopes) ∧ t = emitted id item scopes v)
    fun _ _ => True := by
  simp only [regionItem, inScope, pushItem, ends_bind, Run.ends_mapScopes]
  refine .intro (fun _ v hv => ?_) fun _ _ _ => trivial
  simp only [ends_pure]
  cases hpop : v.scopes.pop? with
  | none => simp [Run.popScope, hpop]
  | some popped =>
    rw [Run.ends_popScope hpop]
    exact ⟨v, popped.1, popped.2, hv, hpop, rfl⟩

theorem fill_rounds (hbody : Keeps i body) (stop fuel : Nat) {s : State} (h : i.before s) :
    Ends (fill stop (regionItem id body) fuel) s (fun _ t => ∃ rounds u, Rounds id body s rounds u ∧
      Fills s.cursor.offset stop rounds ∧ t = { u with log := stalls rounds ++ u.log })
      fun _ _ => True := by
  induction fuel generalizing s with
  | zero => trivial
  | succ fuel ih =>
    unfold fill
    rw [ends_bind, Run.ends_offset]
    split
    · next before =>
      rw [ends_bind]
      refine ((regionItem_keeps hbody id s h).and (regionItem_round s)).imp ?_ fun _ _ _ => trivial
      rintro _ _ ⟨balanced, v, item, scopes, hv, hpop, rfl⟩
      rw [ends_bind, Run.ends_offset]
      split
      · next still =>
        have still : v.cursor.offset = s.cursor.offset := still
        refine ⟨[⟨s.cursor.offset, v.cursor.offset, item⟩], _, .next hv hpop .done, ?_, ?_⟩
        · rw [still]
          exact .stalled before
        · have reported : stalls [⟨s.cursor.offset, v.cursor.offset, item⟩] =
              [.diagnostic (.stalled "bounded" s.cursor.offset)] := if_pos still
          rw [reported]
          rfl
      · next moved =>
        have moved : v.cursor.offset ≠ s.cursor.offset := moved
        have ahead := Nat.lt_of_le_of_ne balanced.forward (Ne.symm moved)
        refine (ih (i.advanced h balanced.toAdvanced)).imp_done ?_
        rintro _ _ ⟨rounds, u, hrounds, hfills, rfl⟩
        refine ⟨_, u, .next hv hpop hrounds, .cons before ahead hfills, ?_⟩
        rw [stalls_cons moved]
    · next past => exact ⟨[], s, .done, .nil (Nat.le_of_not_lt past), rfl⟩

/-- An item leaves the list of the record around it alone. -/
theorem target_of_item (hbody : Frames (Frame.column id) body) {s t : State} {item : Record}
    {scopes : Scopes} (ht : body { s with scopes := s.scopes.push } = .ok () t)
    (hpop : t.scopes.pop? = some (item, scopes)) :
    scopes.target.get? id = s.scopes.target.get? id := by
  have kept : (t.scopes.column id).tail = s.scopes.column id := (hbody _).of_ok ht
  have columns := (Scopes.column_pop hpop).trans kept
  rw [Scopes.column_eq, s.scopes.column_eq] at columns
  exact (List.cons.inj columns).1

theorem emitted_items {t : State} {item : Record} {scopes : Scopes} {items : List Value}
    (held : scopes.target.get? id = some (.list items)) :
    (emitted id item scopes t).scopes.target.get? id =
      some (.list (items ++ [.record item])) := by
  rw [emitted, Scopes.target_mapTarget]
  exact scopes.target.get?_pushItem id _ held

/-- Rounds append their records, in order, to what the target holds under `id`. -/
theorem Rounds.items (hbody : Frames (Frame.column id) body) {s u : State} {rounds : List Round}
    {items : List Value} (h : Rounds id body s rounds u)
    (hstart : s.scopes.target.get? id = some (.list items)) :
    u.scopes.target.get? id = some (.list (items ++ rounds.map fun r => .record r.item)) := by
  induction h generalizing items with
  | done => simpa using hstart
  | next ht hpop _ ih =>
    have held := (target_of_item hbody ht hpop).trans hstart
    simpa using ih (emitted_items held)

/-- Evaluating a length changes nothing but the log. -/
theorem evalLength_logs (term : Term) (s : State) : Ends (Run.evalLength setting term) s
    (fun _ t => ∃ log, t = { s with log := log }) fun _ _ => True := by
  rw [Run.evalLength, ends_bind, Run.ends_eval]
  refine .intro (fun v log _ => ?_) fun _ _ _ => trivial
  exact Run.ends_ofExcept.mpr ⟨fun _ _ => ⟨log, rfl⟩, fun _ _ => trivial⟩

theorem runBounded_rounds (hbody : Keeps i body) (length : Term) {s : State} (h : i.before s) :
    Ends (runBounded setting id length body) s (fun _ t => ∃ n log rounds u,
      Run.evalLength setting length s = .ok n { s with log := log } ∧
      Rounds id body (opened id (regionStop s n) { s with log := log }) rounds u ∧
      Fills s.cursor.offset (regionStop s n) rounds ∧
      t = closed s.cursor.offset (regionStop s n) { u with log := stalls rounds ++ u.log })
      fun _ _ => True := by
  rw [ends_runBounded]
  refine .intro (fun n t ht => ?_) fun _ _ _ => trivial
  obtain ⟨log, rfl⟩ := (evalLength_logs length s).of_ok ht
  have logged : i.before { s with log := log } := i.still h rfl rfl rfl rfl
  refine (fill_rounds hbody _ _ (opened_before logged n)).imp_done ?_
  rintro _ _ ⟨rounds, u, hrounds, hfills, rfl⟩
  exact ⟨n, log, rounds, u, ht, hrounds, hfills, rfl⟩

/-- Without a round the region was empty, so there is nothing to report. -/
theorem Rounds.closed_log {s u : State} {stop : Nat} {rounds : List Round}
    (h : Rounds id body s rounds u) (empty : rounds = [] → s.cursor.offset = stop) :
    (closed s.cursor.offset stop { u with log := stalls rounds ++ u.log }).log =
      reports s.cursor.offset stop rounds ++ u.log := by
  have offset := h.offset_eq
  have closing : (closed s.cursor.offset stop { u with log := stalls rounds ++ u.log }).log =
      (if stop < u.cursor.offset then
        [.diagnostic (.regionOverrun s.cursor.offset stop u.cursor.offset)] else []) ++
      stalls rounds ++ u.log := by
    simp only [closed]
    split <;> simp
  rw [closing]
  cases hlast : rounds.getLast? with
  | none =>
    have within : ¬ stop < u.cursor.offset := by
      rw [hlast] at offset
      rw [offset, ← empty (List.getLast?_eq_none_iff.mp hlast)]
      exact Nat.lt_irrefl _
    simp [within, stalls, reports, hlast]
  | some last =>
    rw [hlast] at offset
    have stop : u.cursor.offset = last.stop := offset
    simp [stop, stalls, reports, hlast]

/-- The items of a region start with an empty list. -/
theorem opened_items (id : String) (stop : Nat) (s : State) :
    (opened id stop s).scopes.target.get? id = some (.list []) := by
  rw [opened, Scopes.write, Scopes.target_mapTarget]
  exact Record.get?_insert_self _ id _

end Block

/-- A `bounded` node over `n` bytes runs its body in rounds that fill the region. Whatever they
read, the cursor ends where the region does, an overrun is reported exactly when the last round
left the cursor past it, and a stall exactly when that round consumed nothing. The field holds the
records of the rounds, unless the body sets it. -/
theorem bounded_fills (setting : Setting) (levels : Nat) (id : String) (length : Term)
    (spec : List Node) (s t : State) (h : s.cursor.offset ≤ s.cursor.length)
    (hrun : Block.runNode setting (Block.callWithin setting levels) (.bounded id length spec) s =
      .ok () t) :
    ∃ n log rounds u,
      Run.evalLength setting length s = .ok n { s with log := log } ∧
      let start := s.cursor.offset
      let stop := min (start + n) s.cursor.length
      Block.Rounds id (Block.run setting (Block.callWithin setting levels) spec)
        (Block.opened id stop { s with log := log }) rounds u ∧
      t.cursor.offset = stop ∧ t.scopes = u.scopes ∧
      (rounds = [] ↔ start = stop) ∧ rounds.length ≤ stop - start ∧
      (∀ r ∈ rounds, start ≤ r.start ∧ r.start < stop) ∧
      (∀ r ∈ rounds.dropLast, r.start < r.stop) ∧
      t.log = Block.reports start stop rounds ++ u.log ∧
      ((∀ value, ¬ Occurs setting.schema spec (.action (.set id value))) →
        t.scopes.target.get? id = some (.list (rounds.map fun r => .record r.item))) := by
  have hbody := Block.run_callWithin_keeps (i := Invariant.causes setting s.cursor.data)
    (by rintro _ _ _ ⟨⟩) levels spec
  have hs : (Invariant.causes setting s.cursor.data).before s := ⟨rfl, h⟩
  have balanced := (Block.runBounded_keeps hbody id length s hs).of_ok hrun
  have size : t.cursor.length = s.cursor.length := congrArg List.length balanced.data
  obtain ⟨n, log, rounds, u, hlength, hrounds, hfills, rfl⟩ :=
    (Block.runBounded_rounds hbody length hs).of_ok hrun
  have start_le := Block.start_le_regionStop h n
  have stop_le : Block.regionStop s n ≤ s.cursor.length := Nat.min_le_right _ _
  have none_iff : rounds = [] ↔ s.cursor.offset = Block.regionStop s n :=
    hfills.none_iff.trans ⟨Nat.le_antisymm start_le, fun e => Nat.le_of_eq e.symm⟩
  refine ⟨n, log, rounds, u, hlength, hrounds, ?_, rfl, none_iff, hfills.few, hfills.starts,
    hfills.ahead, hrounds.closed_log none_iff.mp, fun unset => ?_⟩
  · exact Nat.min_eq_left (size ▸ stop_le)
  · have frames : Frames (Frame.column id)
        (Block.run setting (Block.callWithin setting levels) spec) := by
      refine Block.run_callWithin_frames levels fun other value hset => ?_
      rintro rfl
      exact unset value hset
    exact hrounds.items frames (Block.opened_items id _ _)

namespace DecodeSample

/-- A region that its field overruns, and one byte more. -/
def region : List Node :=
  [.bounded "pair" (.uint 1) [.action (.uint "x" (.uint 2))], .action (.skip (.uint 1))]

theorem region_unset (schema : Schema) (id : String) (value : Term) :
    ¬ Occurs schema region (.action (.set id value)) := by
  intro hset
  have nodes {node : Node} (h : Occurs schema region node) :
      node ∈ .action (.uint "x" (.uint 2)) :: region := by
    induction h with
    | here hmem => exact .tail _ hmem
    | inside _ hchild ih =>
      simp only [region, List.mem_cons, List.not_mem_nil, or_false] at ih
      obtain rfl | rfl | rfl := ih
      · cases hchild
      · exact List.mem_cons.mpr (.inl (List.mem_singleton.mp hchild))
      · cases hchild
    | called _ _ _ ih => simp [region] at ih
  simpa [region] using nodes hset

end DecodeSample

open DecodeSample in
theorem bounded_fills_overrun :
    ∃ t rounds, Block.runNode setting (Block.callWithin setting 1) (.bounded "items" (.uint 1) region)
        inside = .ok () t ∧ t.cursor.offset = 2 ∧ rounds ≠ [] ∧ rounds.length ≤ 1 ∧
      t.scopes.target.get? "items" = some (.list (rounds.map fun r : Round => .record r.item)) := by
  obtain ⟨_, t, ht⟩ : ∃ a t, Block.runNode setting (Block.callWithin setting 1)
      (.bounded "items" (.uint 1) region) inside = .ok a t := exists_of_succeeds (by decide +kernel)
  obtain ⟨n, log, rounds, u, hlength, -, stop, -, none_iff, few, -, -, -, items⟩ :=
    bounded_fills setting 1 "items" (.uint 1) region inside t (by decide) ht
  have one : Run.evalLength setting (.uint 1) inside = .ok 1 { inside with log := [] } := rfl
  rw [one] at hlength
  cases hlength
  refine ⟨t, rounds, ht, stop, fun none => ?_, few, items fun value => region_unset _ _ value⟩
  exact absurd (none_iff.mp none) (by decide)

end ByteSchema
