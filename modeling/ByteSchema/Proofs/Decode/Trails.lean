import ByteSchema.Proofs.Decode.Pointers

/-!
# Runs of cursor operations

Any operations on a cursor and on its forks, in any order. `trails_sound` says where the cursors
are after them, what the next operation can do, and that the slices that a cursor has consumed
are the input up to where it is.
-/

namespace ByteSchema

/-- What is asked of a cursor. -/
inductive Request where
  | readByte
  | peek
  | readUInt (n : UInt64)
  | readInt (n : UInt64)
  | readText (n : UInt64)
  | readBytes (n : UInt64)
  | readLenient (n : UInt64)
  | skip (n : UInt64)
  | skipLenient (n : UInt64)
  | setOrder (order : ByteOrder)
  | rest

inductive Answer where
  | byte (b : UInt8)
  | peeked (b : Option UInt8)
  | number (v : Nat)
  | integer (i : Int)
  | text (s : String)
  | bytes (data : List UInt8)
  | count (n : Nat)
  | done

namespace Request

/-- The request as a read of a cursor. -/
def read (c : Cursor) : Request → Except Error (Answer × Cursor)
  | readByte => c.readByte.map fun r => (.byte r.1, r.2)
  | peek => .ok (.peeked c.peek?, c)
  | readUInt n => (c.readUInt n.toNat).map fun r => (.number r.1, r.2)
  | readInt n => (c.readInt n.toNat).map fun r => (.integer r.1, r.2)
  | readText n => (c.take n.toNat).map fun r => (.text (Value.latin1 r.1), r.2)
  | readBytes n => (c.take n.toNat).map fun r => (.bytes r.1, r.2)
  | readLenient n => .ok (.bytes (c.takeLenient n.toNat).1, (c.takeLenient n.toNat).2)
  | skip n => (c.skip n.toNat).map fun next => (.done, next)
  | skipLenient n =>
    .ok (.count ((c.skipLenient n.toNat).offset - c.offset), c.skipLenient n.toNat)
  | setOrder order => .ok (.done, { c with order := order })
  | rest => .ok (.bytes c.rest, c)

/-- The request in place. -/
def run : Request → Moving Answer
  | readByte => .byte <$> Pointer.readByte
  | peek => do return .peeked (← get).peek?
  | readUInt n => .number <$> UInt64.toNat <$> Pointer.readUInt n
  | readInt n => .integer <$> Int64.toInt <$> Pointer.readInt n
  | readText n => (fun data => .text (Value.latin1 data)) <$> Pointer.take n
  | readBytes n => .bytes <$> Pointer.take n
  | readLenient n => .bytes <$> Pointer.takeLenient n
  | skip n => (fun _ => .done) <$> Pointer.skip n
  | skipLenient n => .count <$> UInt64.toNat <$> Pointer.skipLenient n
  | setOrder order => (fun _ => .done) <$> Pointer.setOrder order
  | rest => do return .bytes (← get).rest

/-! ### What a request comes to -/

/-- `n` bytes, all or none. -/
def strict (c : Cursor) (n : Nat) : Except Error Nat :=
  if n ≤ c.remaining then .ok n else .error (.unexpectedEof c.offset n c.remaining)

/-- The `n` bytes of an integer. -/
def width (c : Cursor) (n : Nat) : Except Error Nat :=
  if 1 ≤ n ∧ n ≤ 8 then strict c n else .error (.invalidSchema (.integerWidth n))

/-- How many bytes the request consumes. -/
def amount (c : Cursor) : Request → Except Error Nat
  | readByte => strict c 1
  | readUInt n | readInt n => width c n.toNat
  | readText n | readBytes n | skip n => strict c n.toNat
  | readLenient n | skipLenient n => .ok (min n.toNat c.remaining)
  | peek | setOrder _ | rest => .ok 0

/-- What the request makes of the bytes that it consumes. -/
def answer (c : Cursor) (consumed : List UInt8) : Request → Answer
  | readByte => .byte (consumed.headD 0)
  | peek => .peeked c.rest.head?
  | readUInt _ => .number (Cursor.toNat c.order consumed)
  | readInt n => .integer (BitVec.ofNat (8 * n.toNat) (Cursor.toNat c.order consumed)).toInt
  | readText _ => .text (Value.latin1 consumed)
  | readBytes _ | readLenient _ => .bytes consumed
  | skip _ | setOrder _ => .done
  | skipLenient _ => .count consumed.length
  | rest => .bytes c.rest

def orderAfter (order : ByteOrder) : Request → ByteOrder
  | setOrder order => order
  | _ => order

/-- A request fails, or consumes its amount of bytes and answers with what it makes of them. -/
def outcome (c : Cursor) (r : Request) : Except Error (Answer × Cursor) :=
  (r.amount c).map fun n =>
    (r.answer c (c.rest.take n), { c.advance n with order := r.orderAfter c.order })

section

variable {c : Cursor} {n : Nat}

theorem strict_of_le (h : n ≤ c.remaining) : strict c n = .ok n := if_pos h

theorem strict_of_not_le (h : ¬ n ≤ c.remaining) :
    strict c n = .error (.unexpectedEof c.offset n c.remaining) :=
  if_neg h

theorem strict_le {k : Nat} (h : strict c n = .ok k) : k ≤ c.remaining := by
  by_cases enough : n ≤ c.remaining
  · rw [strict_of_le enough] at h
    cases h
    exact enough
  · rw [strict_of_not_le enough] at h
    cases h

theorem width_le {k : Nat} (h : width c n = .ok k) : k ≤ c.remaining := by
  unfold width at h
  split at h
  · exact strict_le h
  · cases h

theorem amount_le {r : Request} (h : r.amount c = .ok n) : n ≤ c.remaining := by
  cases r with
  | readByte | readText _ | readBytes _ | skip _ => exact strict_le h
  | readUInt _ | readInt _ => exact width_le h
  | readLenient _ | skipLenient _ =>
    cases h
    exact Nat.min_le_right _ _
  | peek | setOrder _ | rest =>
    cases h
    exact Nat.zero_le _

end

section

variable (c : Cursor) (n : Nat)

theorem take_eq : c.take n = (strict c n).map fun n => (c.rest.take n, c.advance n) := by
  by_cases enough : n ≤ c.remaining
  · rw [Cursor.take_of_le enough, strict_of_le enough]
    rfl
  · rw [strict_of_not_le enough]
    exact if_neg enough

theorem skip_eq : c.skip n = (strict c n).map c.advance := by
  unfold Cursor.skip strict
  split <;> rfl

theorem readByte_eq :
    c.readByte = (strict c 1).map fun n => ((c.rest.take n).headD 0, c.advance n) := by
  have left := c.length_rest
  rw [Cursor.readByte, Cursor.peek?_eq]
  cases hrest : c.rest with
  | nil =>
    rw [hrest] at left
    rw [strict_of_not_le (by rw [← left]; decide), ← left]
    rfl
  | cons b after =>
    rw [hrest, List.length_cons] at left
    rw [strict_of_le (by omega)]
    rfl

theorem readUInt_eq : c.readUInt n =
    (width c n).map fun n => (Cursor.toNat c.order (c.rest.take n), c.advance n) := by
  rw [Cursor.readUInt, width, take_eq]
  split
  · cases strict c n <;> rfl
  · rfl

theorem readInt_eq : c.readInt n = (width c n).map fun k =>
    ((BitVec.ofNat (8 * n) (Cursor.toNat c.order (c.rest.take k))).toInt, c.advance k) := by
  rw [Cursor.readInt, readUInt_eq]
  cases width c n <;> rfl

end

theorem map_map {α β γ : Type} (x : Except Error α) (f : α → β) (g : β → γ) :
    (x.map f).map g = x.map fun a => g (f a) := by
  cases x <;> rfl

theorem read_eq_outcome (c : Cursor) (r : Request) : r.read c = r.outcome c := by
  cases r with
  | readByte =>
    rw [read, readByte_eq, map_map]
    rfl
  | readUInt n =>
    rw [read, readUInt_eq, map_map]
    rfl
  | readInt n =>
    rw [read, readInt_eq, map_map]
    rfl
  | readText n | readBytes n =>
    rw [read, take_eq, map_map]
    rfl
  | readLenient n =>
    rw [read, Cursor.takeLenient, ← Cursor.take_min_remaining]
    rfl
  | skip n =>
    rw [read, skip_eq, map_map]
    rfl
  | skipLenient n =>
    have length : (c.rest.take (min n.toNat c.remaining)).length = min n.toNat c.remaining :=
      Cursor.length_take_rest (Nat.min_le_right _ _)
    have moved : (c.skipLenient n.toNat).offset - c.offset = min n.toNat c.remaining :=
      Nat.add_sub_cancel_left _ _
    rw [read, moved, ← length]
    rfl
  | peek =>
    rw [read, Cursor.peek?_eq]
    rfl
  | setOrder order => rfl
  | rest => rfl

open Pointer in
theorem run_refines (r : Request) : Refines r.run r.read := by
  cases r with
  | readByte => exact readByte_refines.map Answer.byte
  | peek => exact fun _ _ => .moved rfl
  | readUInt n => exact (readUInt_refines n).map Answer.number
  | readInt n => exact (readInt_refines n).map Answer.integer
  | readText n => exact (take_refines n).map fun data => Answer.text (Value.latin1 data)
  | readBytes n => exact (take_refines n).map Answer.bytes
  | readLenient n => exact (takeLenient_refines n).map Answer.bytes
  | skip n =>
    have skipped := (skip_refines n).map fun _ => Answer.done
    simp only [map_map] at skipped
    exact skipped
  | skipLenient n => exact (skipLenient_refines n).map Answer.count
  | setOrder order => exact fun _ _ => .moved rfl
  | rest => exact fun _ _ => .moved rfl

/-- A request in place that is answered has consumed an amount that there is, and leads behind it. -/
theorem run_cases (r : Request) {p : Pointer} (h : p.Inside) :
    (∃ n a q, n ≤ p.cursor.remaining ∧ r.run p = .ok a q ∧
      q.cursor = { p.cursor.advance n with order := r.orderAfter p.order }) ∨
    ∃ e, r.run p = .error e p := by
  have agrees := run_refines r p h
  dsimp only at agrees
  rw [read_eq_outcome, outcome] at agrees
  cases hamount : r.amount p.cursor with
  | ok n =>
    rw [hamount] at agrees
    obtain ⟨q, hq, there⟩ := agrees.exists_ok
    exact .inl ⟨n, _, q, amount_le hamount, hq, there⟩
  | error e =>
    rw [hamount] at agrees
    exact .inr ⟨e, agrees.eq_error⟩

end Request

/-! ### Trails -/

/-- A pointer and what it has consumed, one slice for each request that was answered. -/
structure Trail where
  pointer : Pointer
  slices : List (List UInt8)

namespace Trail

def start (data : List UInt8) (order : ByteOrder) : Trail := ⟨⟨data, 0, order⟩, []⟩

def ask (r : Request) (t : Trail) : Trail :=
  match r.run t.pointer with
  | .ok _ q => ⟨q, t.slices ++ [t.pointer.slice q.offset]⟩
  | .error _ q => ⟨q, t.slices⟩

/-- The pointer is inside the data, and what it has consumed stands before it, without a gap. -/
structure Sound (data : List UInt8) (t : Trail) : Prop where
  same : t.pointer.data = data
  le : t.pointer.offset.toNat ≤ data.length
  slices : t.slices.flatten = data.take t.pointer.offset.toNat

section

variable {data : List UInt8} {t : Trail}

theorem start_sound (data : List UInt8) (order : ByteOrder) : (start data order).Sound data :=
  ⟨rfl, Nat.zero_le _, rfl⟩

theorem Sound.inside (short : data.length < 2 ^ 64) (h : t.Sound data) : t.pointer.Inside := by
  obtain ⟨rfl, le, -⟩ := h
  exact ⟨short, le⟩

theorem Sound.ask (short : data.length < 2 ^ 64) (h : t.Sound data) (r : Request) :
    (t.ask r).Sound data := by
  obtain ⟨n, a, q, enough, hrun, there⟩ | ⟨e, hrun⟩ := r.run_cases (h.inside short)
  · have same : q.data = data := (congrArg Cursor.data there).trans h.same
    have stop : q.offset.toNat = t.pointer.offset.toNat + n := congrArg Cursor.offset there
    have le := h.le
    have left : t.pointer.cursor.remaining = data.length - t.pointer.offset.toNat := by
      rw [← h.same]
      rfl
    rw [Trail.ask, hrun]
    refine ⟨same, ?_, ?_⟩
    · dsimp only
      omega
    -- The new slice starts where the old ones end.
    · have front : (data.take q.offset.toNat).take t.pointer.offset.toNat =
          data.take t.pointer.offset.toNat := by
        rw [List.take_take, Nat.min_eq_left (by omega)]
      show (t.slices ++ [t.pointer.slice q.offset]).flatten = data.take q.offset.toNat
      rw [List.flatten_append, h.slices, List.flatten_singleton, Pointer.slice, h.same, ← front,
        List.take_append_drop]
  · rw [Trail.ask, hrun]
    exact ⟨h.same, h.le, h.slices⟩

end

end Trail

/-- What is done with cursors that have numbers, in the order in which they came to be. -/
inductive Act where
  | ask (i : Nat) (r : Request)
  | fork (i : Nat)

namespace Act

def step (trails : List Trail) : Act → List Trail
  | ask i r => trails.modify i (·.ask r)
  | fork i => trails ++ trails[i]?.toList

def run (acts : List Act) (trails : List Trail) : List Trail := acts.foldl step trails

variable {trails : List Trail}

theorem step_sound {data : List UInt8} (short : data.length < 2 ^ 64)
    (h : ∀ t ∈ trails, t.Sound data) (act : Act) : ∀ t ∈ step trails act, t.Sound data := by
  intro t ht
  cases act with
  | ask i r =>
    obtain ⟨j, hj⟩ := List.mem_iff_getElem?.mp ht
    rw [step, List.getElem?_modify] at hj
    obtain ⟨t', ht', rfl⟩ := Option.map_eq_some_iff.mp hj
    have sound := h t' (List.mem_of_getElem? ht')
    split
    · exact sound.ask short r
    · exact sound
  | fork i =>
    obtain old | new := List.mem_append.mp ht
    · exact h t old
    · exact h t (List.mem_of_getElem? (Option.mem_toList.mp new))

theorem run_sound {data : List UInt8} (short : data.length < 2 ^ 64) (acts : List Act)
    (h : ∀ t ∈ trails, t.Sound data) : ∀ t ∈ run acts trails, t.Sound data := by
  induction acts generalizing trails with
  | nil => exact h
  | cons act acts ih => exact ih (step_sound short h act)

/-- A fork goes to the end of the list, so only a request to the cursor itself moves it. -/
theorem step_other {act : Act} {i : Nat} {t : Trail} (h : trails[i]? = some t)
    (other : ∀ r, act ≠ ask i r) : (step trails act)[i]? = some t := by
  cases act with
  | ask j r =>
    have apart : j ≠ i := by
      rintro rfl
      exact other r rfl
    rw [step, List.getElem?_modify_ne _ _ apart, h]
  | fork j =>
    obtain ⟨lt, -⟩ := List.getElem?_eq_some_iff.mp h
    rw [step, List.getElem?_append_left lt, h]

theorem run_other {acts : List Act} {i : Nat} {t : Trail} (h : trails[i]? = some t)
    (other : ∀ r, ask i r ∉ acts) : (run acts trails)[i]? = some t := by
  induction acts generalizing trails with
  | nil => exact h
  | cons act acts ih =>
    refine ih (step_other h fun r same => other r ?_) fun r mem => other r (.tail _ mem)
    rw [same]
    exact .head _

end Act

/-- However cursors of 64 bits are used and forked: each is inside the data, with the slices it has
consumed before it and the rest behind; its next request consumes its amount of bytes, or fails
where it stands; and a fork starts where its original is, from where neither moves the other. -/
theorem trails_sound {data : List UInt8} (short : data.length < 2 ^ 64) (order : ByteOrder)
    (acts : List Act) :
    let trails := Act.run acts [.start data order]
    (∀ t ∈ trails, t.pointer.data = data ∧ t.pointer.offset.toNat ≤ data.length ∧
      t.pointer.remaining.toNat = data.length - t.pointer.offset.toNat ∧
      t.pointer.rest = data.drop t.pointer.offset.toNat ∧
      t.slices.flatten = data.take t.pointer.offset.toNat ∧
      ∀ r : Request, r.read t.pointer.cursor = r.outcome t.pointer.cursor ∧
        t.pointer.Agrees (r.run t.pointer) (r.outcome t.pointer.cursor)) ∧
    ∀ i t, trails[i]? = some t → (Act.fork i).step trails = trails ++ [t] ∧
      ∀ later : List Act, (∀ r, Act.ask i r ∉ later) → (Act.run later trails)[i]? = some t := by
  intro trails
  have sound : ∀ t ∈ trails, t.Sound data := by
    refine Act.run_sound short acts fun t ht => ?_
    rw [List.mem_singleton.mp ht]
    exact Trail.start_sound data order
  refine ⟨fun t ht => ?_, fun i t hi => ⟨?_, fun later other => Act.run_other hi other⟩⟩
  · have inside := (sound t ht).inside short
    obtain ⟨rfl, le, slices⟩ := sound t ht
    refine ⟨rfl, le, Pointer.toNat_remaining inside, rfl, slices, fun r => ?_⟩
    have agrees := r.run_refines t.pointer inside
    dsimp only at agrees
    rw [r.read_eq_outcome] at agrees
    exact ⟨r.read_eq_outcome _, agrees⟩
  · rw [Act.step, hi]
    rfl

/-- A fork reads to the end, and what is asked of its original fails for the want of bytes. -/
theorem trails_sound_forked :
    let trails := Act.run [.ask 0 (.readUInt 2), .fork 0, .ask 1 (.readLenient 0xffffffffffffffff),
      .ask 0 (.skip 0xffffffffffffffff)] [.start [1, 2, 3] .big]
    trails.map Trail.slices = [[[1, 2]], [[1, 2], [3]]] ∧
    ∀ t ∈ trails, t.slices.flatten = [1, 2, 3].take t.pointer.offset.toNat := by
  refine ⟨by decide +kernel, fun t ht => ?_⟩
  have sound := (@trails_sound [1, 2, 3] (by decide) .big _).1 t ht
  exact sound.2.2.2.2.1

end ByteSchema
