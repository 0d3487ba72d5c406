import ByteSchema.Proofs.Decode.Rounds

/-!
# The items of a list

`Turns` are the runs of a body one after the other, each in a scope of its own where the conditions
are looked at before it is closed. A list with a count is such a chain up to the count or its first
last item. One without is `Uncounted`: it goes on until an item is the last, consumes nothing or,
without a stop condition, ends where the region does.
-/

namespace ByteSchema

/-- One item of a list: where the cursor was before and after it, its record, and what the
conditions say of it. -/
structure Turn where
  start : Nat
  stop : Nat
  item : Record
  isLast : Bool
  isKept : Bool

namespace Block

/-- The state after an item, given the one that its conditions left and the scopes around it. -/
def settled (id : String) (isKept : Bool) (item : Record) (scopes : Scopes) (s : State) : State :=
  if isKept then emitted id item scopes s else { s with scopes := scopes }

/-- The body runs once from `s`, and the conditions see what it left, before the scope is closed. -/
inductive IsTurn (setting : Setting) (id : String) (stopWhen emitWhen : Option Term)
    (body : Run Unit) (s : State) : Turn → State → Prop where
  | intro {t : State} {isLast isKept : Bool} {log log' : Log} {item : Record} {scopes : Scopes} :
      body { s with scopes := s.scopes.push } = .ok () t →
      condition setting false stopWhen t = .ok isLast { t with log := log } →
      condition setting true emitWhen { t with log := log } = .ok isKept { t with log := log' } →
      t.scopes.pop? = some (item, scopes) →
      IsTurn setting id stopWhen emitWhen body s
        ⟨s.cursor.offset, t.cursor.offset, item, isLast, isKept⟩
        (settled id isKept item scopes { t with log := log' })

/-- The turns lead from `s` to `u`. -/
inductive Turns (setting : Setting) (id : String) (stopWhen emitWhen : Option Term)
    (body : Run Unit) : State → List Turn → State → Prop where
  | done {s : State} : Turns setting id stopWhen emitWhen body s [] s
  | next {s t u : State} {r : Turn} {rest : List Turn} :
      IsTurn setting id stopWhen emitWhen body s r t →
      Turns setting id stopWhen emitWhen body t rest u →
      Turns setting id stopWhen emitWhen body s (r :: rest) u

/-- How turns from `start` on make a list without a count, which ends at `stop`. Only if `toEnd` it
also ends where the cursor has reached `limit` before an item. -/
structure Uncounted (toEnd : Bool) (limit start stop : Nat) (turns : List Turn) : Prop where
  goesOn : ∀ r ∈ turns.dropLast, r.isLast = false ∧ r.start < r.stop
  within : toEnd = true → ∀ r ∈ turns, r.start < limit
  none_iff : turns = [] ↔ toEnd = true ∧ limit ≤ start
  last : ∀ r ∈ turns.getLast?,
    r.isLast = true ∨ r.stop = r.start ∨ toEnd = true ∧ limit ≤ r.stop
  starts : ∀ r ∈ turns, start ≤ r.start
  increasing : (turns.map Turn.start).Pairwise (· < ·)
  few : turns.length ≤ stop - start + 1

namespace Uncounted

variable {toEnd : Bool} {limit start stop : Nat} {r : Turn} {rest : List Turn}

theorem nil (ends : toEnd = true) (h : limit ≤ start) : Uncounted toEnd limit start stop [] where
  goesOn := List.forall_mem_nil _
  within _ := List.forall_mem_nil _
  none_iff := ⟨fun _ => ⟨ends, h⟩, fun _ => rfl⟩
  last := nofun
  starts := List.forall_mem_nil _
  increasing := .nil
  few := Nat.zero_le _

/-- An item that is the last or consumes nothing ends the list. -/
theorem single (before : ¬ (toEnd = true ∧ limit ≤ r.start))
    (h : r.isLast = true ∨ r.stop = r.start) : Uncounted toEnd limit r.start stop [r] where
  goesOn := List.forall_mem_nil _
  within := by
    intro ends
    have inside : r.start < limit := Nat.lt_of_not_le fun past => before ⟨ends, past⟩
    simpa using inside
  none_iff := ⟨nofun, fun h => absurd h before⟩
  last := by
    rintro _ ⟨⟩
    exact h.imp id .inl
  starts := by simp
  increasing := List.pairwise_singleton _ _
  few := Nat.succ_le_succ (Nat.zero_le _)

theorem cons (before : ¬ (toEnd = true ∧ limit ≤ r.start)) (more : r.isLast = false)
    (ahead : r.start < r.stop) (forward : r.stop ≤ stop)
    (hrest : Uncounted toEnd limit r.stop stop rest) :
    Uncounted toEnd limit r.start stop (r :: rest) where
  goesOn := by
    cases rest with
    | nil => exact List.forall_mem_nil _
    | cons next rest => exact List.forall_mem_cons.mpr ⟨⟨more, ahead⟩, hrest.goesOn⟩
  within := by
    intro ends
    have inside : r.start < limit := Nat.lt_of_not_le fun past => before ⟨ends, past⟩
    exact List.forall_mem_cons.mpr ⟨inside, hrest.within ends⟩
  none_iff := ⟨nofun, fun h => absurd h before⟩
  last := by
    cases rest with
    | nil =>
      rintro _ ⟨⟩
      exact .inr (.inr (hrest.none_iff.mp rfl))
    | cons next rest => exact fun last hlast => hrest.last last hlast
  starts := List.forall_mem_cons.mpr ⟨Nat.le_refl _, fun next hnext =>
    Nat.le_of_lt (Nat.lt_of_lt_of_le ahead (hrest.starts next hnext))⟩
  increasing := by
    refine List.pairwise_cons.mpr ⟨fun other hother => ?_, hrest.increasing⟩
    obtain ⟨next, hnext, rfl⟩ := List.mem_map.mp hother
    exact Nat.lt_of_lt_of_le ahead (hrest.starts next hnext)
  few := by
    have few := hrest.few
    simp only [List.length_cons]
    omega

end Uncounted

/-- The event at the end of turns of which the last one consumed nothing and was not meant to be
the last. -/
def standstill (turns : List Turn) : Log :=
  match turns.getLast? with
  | some last =>
    if last.isLast = false ∧ last.stop = last.start then
      [.diagnostic (.stalled "list" last.start)]
    else []
  | none => []

theorem standstill_cons {r : Turn} {rest : List Turn} (moved : r.stop ≠ r.start) :
    standstill (r :: rest) = standstill rest := by
  cases rest with
  | nil => exact if_neg fun stood => moved stood.2
  | cons next rest => rfl

variable {setting : Setting} {i : Invariant setting} {id : String} {body : Run Unit}
  {stopWhen emitWhen : Option Term}

/-- Looking at a condition changes nothing but the log. -/
theorem condition_logs (absent : Bool) (term : Option Term) (s : State) :
    Ends (condition setting absent term) s (fun _ t => ∃ log, t = { s with log := log })
      fun _ _ => True := by
  cases term with
  | none => exact ⟨s.log, rfl⟩
  | some term =>
    rw [condition, Run.evalTruth, ends_bind, Run.ends_eval]
    exact .intro (fun _ log _ => ⟨log, rfl⟩) fun _ _ _ => trivial

/-- An item of a list is one turn. -/
theorem listItem_turn (s : State) : Ends (listItem setting id stopWhen emitWhen body) s
    (fun isLast t => ∃ r, r.isLast = isLast ∧ IsTurn setting id stopWhen emitWhen body s r t)
    fun _ _ => True := by
  simp only [listItem, inScope, ends_bind, Run.ends_mapScopes, ends_pure]
  refine .intro (fun _ v hv => ?_) fun _ _ _ => trivial
  refine .intro (fun isLast t hlast => ?_) fun _ _ _ => trivial
  obtain ⟨log, rfl⟩ := (condition_logs false stopWhen v).of_ok hlast
  refine .intro (fun isKept t hkept => ?_) fun _ _ _ => trivial
  obtain ⟨log', rfl⟩ := (condition_logs true emitWhen { v with log := log }).of_ok hkept
  cases hpop : v.scopes.pop? with
  | none => simp [Run.popScope, hpop]
  | some popped =>
    obtain ⟨item, scopes⟩ := popped
    rw [Run.ends_popScope (s := { v with log := log' }) hpop]
    have turn : IsTurn setting id stopWhen emitWhen body s _ _ := .intro hv hlast hkept hpop
    cases isKept with
    | true => exact ⟨_, rfl, turn⟩
    | false => exact ⟨_, rfl, turn⟩

theorem IsTurn.start_eq {s t : State} {r : Turn}
    (h : IsTurn setting id stopWhen emitWhen body s r t) : r.start = s.cursor.offset := by
  cases h
  rfl

theorem IsTurn.stop_eq {s t : State} {r : Turn}
    (h : IsTurn setting id stopWhen emitWhen body s r t) : r.stop = t.cursor.offset := by
  obtain @⟨v, isLast, isKept⟩ := h
  cases isKept <;> rfl

/-- A list with a count stops at its first last item, or at the count if that comes first. -/
theorem counted_turns (n : Nat) (s : State) :
    Ends (counted (listItem setting id stopWhen emitWhen body) n) s
      (fun _ t => ∃ turns, Turns setting id stopWhen emitWhen body s turns t ∧
        turns.length = (turns.findIdx? Turn.isLast).elim n fun j => min n (j + 1))
      fun _ _ => True := by
  induction n generalizing s with
  | zero => exact ⟨[], .done, rfl⟩
  | succ n ih =>
    unfold counted
    rw [ends_bind]
    refine (listItem_turn s).imp ?_ fun _ _ _ => trivial
    rintro isLast t ⟨r, rfl, turn⟩
    split
    · next last => exact ⟨[r], .next turn .done, by simp [last]⟩
    · next more =>
      refine (ih t).imp_done ?_
      rintro _ u ⟨rest, hrest, count⟩
      refine ⟨r :: rest, .next turn hrest, ?_⟩
      rw [List.length_cons, count, List.findIdx?_cons, if_neg more]
      cases rest.findIdx? Turn.isLast with
      | none => rfl
      | some j => exact (Nat.add_min_add_right n (j + 1) 1).symm

/-- Items that do not end a list consume a byte, so where the cursor is inside the input it ends
ahead. The fuel of a list that starts outside allows for one item. -/
theorem uncounted_turns (hbody : Keeps i body) (toEnd : Bool) (fuel : Nat) {s : State}
    (h : i.before s ∨ fuel ≤ 1) :
    Ends (uncounted toEnd (listItem setting id stopWhen emitWhen body) fuel) s
      (fun _ t => ∃ turns u, Turns setting id stopWhen emitWhen body s turns u ∧
        Uncounted toEnd (regionEnd s) s.cursor.offset u.cursor.offset turns ∧
        (i.before s → s.cursor.offset ≤ u.cursor.offset) ∧
        t = { u with log := standstill turns ++ u.log })
      fun _ _ => True := by
  induction fuel generalizing s with
  | zero => trivial
  | succ fuel ih =>
    unfold uncounted
    rw [ends_bind, ends_atRegionEnd]
    split
    · next atEnd =>
      have atEnd : toEnd = true ∧ regionEnd s ≤ s.cursor.offset := by simpa using atEnd
      exact ⟨[], s, .done, .nil atEnd.1 atEnd.2, fun _ => Nat.le_refl _, rfl⟩
    · next before =>
      have before : ¬ (toEnd = true ∧ regionEnd s ≤ s.cursor.offset) := by simpa using before
      simp only [ends_bind, Run.ends_offset]
      have balanced : Ends (listItem setting id stopWhen emitWhen body) s
          (fun _ t => i.before s → Balanced s t) fun _ _ => True := by
        refine .intro (fun _ t ht inside => ?_) fun _ _ _ => trivial
        exact (listItem_keeps hbody id stopWhen emitWhen s inside).of_ok ht
      refine (balanced.and (listItem_turn s)).imp ?_ fun _ _ _ => trivial
      rintro isLast t ⟨balanced, r, rfl, turn⟩
      have forward (inside : i.before s) : r.start ≤ t.cursor.offset :=
        turn.start_eq ▸ (balanced inside).forward
      rw [← turn.start_eq] at before ⊢
      split
      · next last =>
        have quiet : standstill [r] = [] := if_neg fun stood => by simp [last] at stood
        refine ⟨[r], t, .next turn .done, .single before (.inl last), forward, ?_⟩
        rw [quiet]
        rfl
      · next more =>
        have more : r.isLast = false := eq_false_of_ne_true more
        rw [ends_bind, Run.ends_offset, ← turn.stop_eq]
        split
        · next still =>
          have stood : standstill [r] = [.diagnostic (.stalled "list" r.start)] :=
            if_pos ⟨more, still⟩
          refine ⟨[r], t, .next turn .done, .single before (.inr still), forward, ?_⟩
          rw [stood]
          rfl
        · next moved =>
          obtain inside | few := h
          · have balanced := balanced inside
            have limit : regionEnd t = regionEnd s := by
              rw [regionEnd, balanced.regions, Cursor.length, balanced.data]
              rfl
            have ahead : r.start < r.stop :=
              Nat.lt_of_le_of_ne (turn.stop_eq ▸ forward inside) (Ne.symm moved)
            refine (ih (.inl (i.advanced inside balanced.toAdvanced))).imp_done ?_
            rintro _ _ ⟨rest, u, hrest, huncounted, onwards, rfl⟩
            have onwards := onwards (i.advanced inside balanced.toAdvanced)
            rw [limit, ← turn.stop_eq] at huncounted
            rw [← turn.stop_eq] at onwards
            refine ⟨r :: rest, u, .next turn hrest, .cons before more ahead onwards huncounted,
              fun _ => Nat.le_trans (Nat.le_of_lt ahead) onwards, ?_⟩
            rw [standstill_cons moved]
          · obtain rfl : fuel = 0 := by omega
            trivial

/-- Turns append the records of those items that are kept, in order, to what the target holds under
`id`. -/
theorem Turns.items (hbody : Frames (Frame.column id) body) {s u : State} {turns : List Turn}
    {items : List Value} (h : Turns setting id stopWhen emitWhen body s turns u)
    (hstart : s.scopes.target.get? id = some (.list items)) :
    u.scopes.target.get? id =
      some (.list (items ++ (turns.filter Turn.isKept).map fun r => .record r.item)) := by
  induction h generalizing items with
  | done => simpa using hstart
  | @next s t u r rest turn _ ih =>
    obtain @⟨v, isLast, isKept, log, log', item, scopes, hv, -, -, hpop⟩ := turn
    have held := (target_of_item hbody hv hpop).trans hstart
    cases isKept with
    | false => simpa using ih held
    | true => simpa using ih (emitted_items held)

/-- The state in which the items of a list start. -/
def begun (id : String) (count : Option Nat) (s : State) : State :=
  { s with
    scopes := s.scopes.write id (.list [])
    log := .list id s.cursor.offset count :: s.log }

theorem begun_items (id : String) (count : Option Nat) (s : State) :
    (begun id count s).scopes.target.get? id = some (.list []) := by
  rw [begun, Scopes.write, Scopes.target_mapTarget]
  exact Record.get?_insert_self _ id _

/-- Evaluating a count changes nothing but the log. -/
theorem evalLimit_logs (count : Option Term) (s : State) :
    Ends (Run.evalLimit setting count) s
      (fun n t => n.isSome = count.isSome ∧ ∃ log, t = { s with log := log }) fun _ _ => True := by
  cases count with
  | none => exact ⟨rfl, s.log, rfl⟩
  | some term =>
    rw [Run.evalLimit, ends_bind]
    exact (evalLength_logs term s).imp_done fun _ _ logs => ⟨rfl, logs⟩

/-- Outside of the input there are no bytes left, so the fuel is one. -/
theorem fuel_of_outside {s : State} (h : ¬ s.Inside) : s.cursor.remaining + 1 ≤ 1 := by
  simp only [State.Inside, Cursor.remaining] at *
  omega

theorem runList_turns (hbody : Keeps i body) (count : Option Term) {s : State}
    (h : s.Inside → i.before s) :
    Ends (runList setting id count stopWhen emitWhen body) s (fun _ t => ∃ n log turns u,
      Run.evalLimit setting count s = .ok n { s with log := log } ∧ n.isSome = count.isSome ∧
      Turns setting id stopWhen emitWhen body (begun id n { s with log := log }) turns u ∧
      t.scopes = u.scopes ∧
      (∀ c, n = some c → t = u ∧
        turns.length = (turns.findIdx? Turn.isLast).elim c fun j => min c (j + 1)) ∧
      (n = none → t = { u with log := standstill turns ++ u.log } ∧
        Uncounted stopWhen.isNone (regionEnd s) s.cursor.offset t.cursor.offset turns))
      fun _ _ => True := by
  rw [runList, ends_bind]
  refine .intro (fun n t ht => ?_) fun _ _ _ => trivial
  obtain ⟨given, log, rfl⟩ := (evalLimit_logs count s).of_ok ht
  simp only [ends_bind, Run.ends_offset, Run.ends_log, Run.ends_write]
  cases n with
  | some c =>
    refine (counted_turns c (begun id (some c) { s with log := log })).imp_done ?_
    rintro _ t ⟨turns, hturns, length⟩
    refine ⟨some c, log, turns, t, ht, given, hturns, rfl, fun _ same => ?_, fun absent => ?_⟩
    · cases same
      exact ⟨rfl, length⟩
    · cases absent
  | none =>
    have fuel : i.before (begun id none { s with log := log }) ∨ s.cursor.remaining + 1 ≤ 1 := by
      by_cases inside : s.Inside
      · exact .inl (i.still (h inside) rfl rfl rfl rfl)
      · exact .inr (fuel_of_outside inside)
    refine (uncounted_turns hbody stopWhen.isNone _ fuel).imp_done ?_
    rintro _ _ ⟨turns, u, hturns, huncounted, -, rfl⟩
    refine ⟨none, log, turns, u, ht, given, hturns, rfl, fun _ present => ?_, fun _ => ?_⟩
    · cases present
    · exact ⟨rfl, huncounted⟩

end Block

/-- A list with a count runs its body up to the count, or to the first item that the stop condition
calls the last. One without runs it until that happens, or an item consumes nothing, which is
reported unless the item is also the last, or, without a stop condition, the cursor has reached the
end of the innermost region before an item. The field holds the records of the items that the emit
condition keeps, unless the body sets it. -/
theorem list_items (setting : Setting) (levels : Nat) (id : String) (items : List Node)
    (count stopWhen readUntil emitWhen : Option Term) (s t : State)
    (hrun : Block.runNode setting (Block.callWithin setting levels)
      (.list id items count stopWhen readUntil emitWhen) s = .ok () t) :
    ∃ n log turns u,
      Run.evalLimit setting count s = .ok n { s with log := log } ∧ n.isSome = count.isSome ∧
      Block.Turns setting id (stopWhen.or readUntil) emitWhen
        (Block.run setting (Block.callWithin setting levels) items)
        (Block.begun id n { s with log := log }) turns u ∧
      (∀ c, n = some c → t = u ∧
        turns.length = (turns.findIdx? Turn.isLast).elim c fun j => min c (j + 1)) ∧
      (n = none → t = { u with log := Block.standstill turns ++ u.log } ∧
        Block.Uncounted (stopWhen.or readUntil).isNone (Block.regionEnd s) s.cursor.offset
          t.cursor.offset turns) ∧
      ((∀ value, ¬ Occurs setting.schema items (.action (.set id value))) →
        t.scopes.target.get? id =
          some (.list ((turns.filter Turn.isKept).map fun r => .record r.item))) := by
  have hbody := Block.run_callWithin_keeps (i := Invariant.causes setting s.cursor.data)
    (by rintro _ _ _ ⟨⟩) levels items
  obtain ⟨n, log, turns, u, hn, given, hturns, scopes, counted, uncounted⟩ :=
    (Block.runList_turns hbody count fun inside => ⟨rfl, inside⟩).of_ok hrun
  refine ⟨n, log, turns, u, hn, given, hturns, counted, uncounted, fun unset => ?_⟩
  rw [scopes]
  refine hturns.items (Block.run_callWithin_frames levels fun other value hset => ?_)
    (Block.begun_items id n _)
  rintro rfl
  exact unset value hset

namespace DecodeSample

/-- One byte at a time. -/
def bytewise : List Node := [.action (.uint "x" (.uint 1))]

theorem bytewise_unset (schema : Schema) (id : String) (value : Term) :
    ¬ Occurs schema bytewise (.action (.set id value)) := by
  have only {node : Node} (h : Occurs schema bytewise node) :
      node = .action (.uint "x" (.uint 1)) := by
    induction h with
    | here hmem => exact List.mem_singleton.mp hmem
    | inside _ hchild ih =>
      rw [ih] at hchild
      cases hchild
    | called _ _ _ ih => cases ih
  exact fun hset => nomatch only hset

def isThree : Term := .expr [.ref "x", .op .eq, .uint 3]

def isNotThree : Term := .expr [.ref "x", .op .ne, .uint 3]

end DecodeSample

open DecodeSample in
theorem list_items_bytewise :
    (∃ (t : State) (turns : List Turn), Block.runNode setting (Block.callWithin setting 1)
        (.list "upto" bytewise (some (.uint 5)) (some isThree) none none) inside = .ok () t ∧
      turns.length = (turns.findIdx? Turn.isLast).elim 5 (fun j => min 5 (j + 1)) ∧
      t.scopes.target.get? "upto" =
        some (.list ((turns.filter Turn.isKept).map fun r => .record r.item))) ∧
    ∃ (t : State) (turns : List Turn), Block.runNode setting (Block.callWithin setting 1)
        (.list "others" bytewise none none none (some isNotThree)) inside = .ok () t ∧
      Block.Uncounted true 4 1 t.cursor.offset turns ∧
      t.scopes.target.get? "others" =
        some (.list ((turns.filter Turn.isKept).map fun r => .record r.item)) := by
  constructor
  · obtain ⟨_, t, ht⟩ : ∃ a t, Block.runNode setting (Block.callWithin setting 1)
        (.list "upto" bytewise (some (.uint 5)) (some isThree) none none) inside = .ok a t :=
      exists_of_succeeds (by decide +kernel)
    obtain ⟨n, log, turns, u, hn, -, -, counted, -, items⟩ :=
      list_items setting 1 "upto" bytewise (some (.uint 5)) (some isThree) none none inside t ht
    have five : Run.evalLimit setting (some (.uint 5)) inside = .ok (some 5) inside := rfl
    rw [five] at hn
    cases hn
    exact ⟨t, turns, ht, (counted 5 rfl).2, items fun value => bytewise_unset _ _ value⟩
  · obtain ⟨_, t, ht⟩ : ∃ a t, Block.runNode setting (Block.callWithin setting 1)
        (.list "others" bytewise none none none (some isNotThree)) inside = .ok a t :=
      exists_of_succeeds (by decide +kernel)
    obtain ⟨n, log, turns, u, hn, -, -, -, uncounted, items⟩ :=
      list_items setting 1 "others" bytewise none none none (some isNotThree) inside t ht
    cases hn
    exact ⟨t, turns, ht, (uncounted rfl).2, items fun value => bytewise_unset _ _ value⟩

end ByteSchema
