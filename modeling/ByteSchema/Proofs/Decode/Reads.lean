import ByteSchema.Proofs.Decode.Cause

/-!
# Reads move ahead

A successful read leaves the cursor ahead of where it was and inside the input, and a failing one
tells why. `Reads` says both; the reads of all actions have it. Some cannot fail: lenient reads, and
strict ones of a run that a scanner measured, as no scanner measures more than there is.
-/

namespace ByteSchema

namespace Cursor

/-- `d` is the same cursor at a later offset, or the same one, inside the input. -/
structure Ahead (c d : Cursor) : Prop where
  data : d.data = c.data
  order : d.order = c.order
  forward : c.offset ≤ d.offset
  inside : d.offset ≤ d.length

variable {c : Cursor} {n : Nat}

theorem advance_ahead (h : c.offset + n ≤ c.length) : c.Ahead (c.advance n) :=
  ⟨rfl, rfl, Nat.le_add_right _ _, h⟩

theorem skipLenient_ahead (h : c.offset ≤ c.length) : c.Ahead (c.skipLenient n) := by
  apply advance_ahead
  simp only [remaining]
  omega

theorem takeLenient_ahead (h : c.offset ≤ c.length) : c.Ahead (c.takeLenient n).2 :=
  skipLenient_ahead h

end Cursor

/-- The result of a read from `c`: a cursor ahead of it, or an error with its cause. -/
def Moves {α : Type} (setting : Setting) (c : Cursor) : Except Error (α × Cursor) → Prop
  | .ok (_, next) => c.Ahead next
  | .error e => Cause setting c.data e

/-- From inside the input, `f` moves ahead or fails for a cause. -/
def Reads {α : Type} (setting : Setting) (f : Cursor → Except Error (α × Cursor)) : Prop :=
  ∀ c : Cursor, c.offset ≤ c.length → Moves setting c (f c)

section

variable {α β : Type} {setting : Setting} {c : Cursor}

theorem Moves.bind {x : Except Error (α × Cursor)} {f : α × Cursor → Except Error (β × Cursor)}
    (hx : Moves setting c x) (hf : ∀ a next, c.Ahead next → Moves setting c (f (a, next))) :
    Moves setting c (x >>= f) := by
  cases x with
  | error e => exact hx
  | ok r => exact hf r.1 r.2 hx

theorem Reads.map {f : Cursor → Except Error (α × Cursor)} (hf : Reads setting f)
    (g : Cursor → α → β) :
    Reads setting fun c => do
      let (a, next) ← f c
      return (g c a, next) :=
  fun c h => (hf c h).bind fun _ _ ahead => ahead

namespace Cursor

theorem take_reads (n : Nat) : Reads setting (take · n) := by
  intro c h
  dsimp only [take]
  by_cases hn : n ≤ c.remaining
  · rw [if_pos hn]
    exact advance_ahead (by simp only [remaining] at hn; omega)
  · rw [if_neg hn]
    exact .unexpectedEof (Nat.add_sub_of_le h) (Nat.lt_of_not_le hn)

theorem skip_reads (n : Nat) : Reads setting fun c => (skip c n).map fun next => ((), next) := by
  intro c h
  have taken : Moves setting c _ := take_reads n c h
  dsimp only [take, skip] at taken ⊢
  by_cases hn : n ≤ c.remaining
  · rw [if_pos hn] at taken ⊢
    exact taken
  · rw [if_neg hn] at taken ⊢
    exact taken

/-- At the end of the input one more byte is one too many. -/
theorem cause_of_peek (h : c.offset ≤ c.length) (hpeek : c.peek? = none) :
    Cause setting c.data (.unexpectedEof c.offset 1 0) := by
  have hend : c.length ≤ c.offset := List.getElem?_eq_none_iff.mp hpeek
  exact .unexpectedEof (Nat.le_antisymm h hend) Nat.one_pos

theorem readByte_reads : Reads setting readByte := by
  intro c h
  unfold readByte
  cases hpeek : c.peek? with
  | none => exact cause_of_peek h hpeek
  | some b =>
    have hlt : c.offset < c.length := (List.getElem?_eq_some_iff.mp hpeek).1
    exact advance_ahead hlt

theorem readUInt_reads (n : Nat) : Reads setting (readUInt · n) := by
  intro c h
  unfold readUInt
  split
  · exact (take_reads n).map (fun c bytes => toNat c.order bytes) c h
  · exact .invalidSchema _

theorem readInt_reads (n : Nat) : Reads setting (readInt · n) :=
  (readUInt_reads n).map fun _ raw => (BitVec.ofNat (8 * n) raw).toInt

end Cursor

namespace Vint

theorem read_reads (keepMarker : Bool) : Reads setting fun c => do
    let (value, length, next) ← read c keepMarker
    return ((value, length), next) := by
  intro c h
  dsimp only [read]
  cases hpeek : c.peek? with
  | none => exact Cursor.cause_of_peek h hpeek
  | some first =>
    by_cases hzero : first = 0
    · subst hzero
      exact Cause.invalidVint hpeek
    · have taken : Moves setting c _ := Cursor.take_reads (lengthOf first) c h
      dsimp only at taken ⊢
      rw [if_neg hzero]
      cases htake : c.take (lengthOf first) with
      | error e =>
        rw [htake] at taken
        exact taken
      | ok r =>
        rw [htake] at taken
        exact taken

end Vint

namespace Action

theorem uintField_reads (n : Nat) : Reads setting (uintField n) :=
  (Cursor.readUInt_reads n).map fun _ v => Value.ofNat v

theorem intField_reads (n : Nat) : Reads setting (intField n) :=
  (Cursor.readInt_reads n).map fun _ v => Value.int (Int64.ofInt v)

theorem asciiField_reads (n : Nat) : Reads setting (asciiField n) :=
  (Cursor.take_reads n).map fun _ data => Value.text (Value.latin1 data)

theorem bytesField_reads (n : Nat) : Reads setting (bytesField n) :=
  (Cursor.take_reads n).map fun _ data => Value.bytes data

end Action

theorem BitField.unpack_fails (byte : UInt8) (fields : List BitField) (left : Nat) :
    Fails IsMistake (BitField.unpack byte left fields) := by
  induction fields generalizing left with
  | nil => exact .ok
  | cons field rest ih =>
    simp only [BitField.unpack]
    split
    · exact .error (.invalidSchema _)
    · refine (ih _).bind fun later _ => ?_
      split <;> exact .ok

theorem Schema.template?_fails {data : List UInt8} (name : String) :
    Fails (Cause setting data) (setting.schema.template? name) := by
  unfold Schema.template?
  split
  · exact .ok
  · next h => exact .error (.unknownTemplate h)

end

/-! ### Reads that cannot fail -/

/-- From inside the input, `f` moves ahead and gives a result. -/
def Serves {α : Type} (f : Cursor → Except Error (α × Cursor)) : Prop :=
  ∀ c : Cursor, c.offset ≤ c.length → ∃ a next, f c = .ok (a, next) ∧ c.Ahead next

theorem Serves.reads {α : Type} {setting : Setting} {f : Cursor → Except Error (α × Cursor)}
    (hf : Serves f) : Reads setting f := by
  intro c h
  obtain ⟨a, next, served, ahead⟩ := hf c h
  rw [served]
  exact ahead

theorem Serves.lenient {α : Type} (f : Cursor → α × Cursor)
    (hf : ∀ c : Cursor, c.offset ≤ c.length → c.Ahead (f c).2) : Serves fun c => .ok (f c) :=
  fun c h => ⟨_, _, rfl, hf c h⟩

namespace Scan

theorem limit_le (data : List UInt8) (max : Option Nat) : limit data max ≤ data.length := by
  cases max with
  | none => exact Nat.le_refl _
  | some n => exact Nat.min_le_right n data.length

theorem untilAny_le (data terminators : List UInt8) (max : Option Nat) :
    untilAny data terminators max ≤ data.length := by
  unfold untilAny
  generalize limit data max = longest
  calc
    _ ≤ (data.take longest).length := (List.takeWhile_sublist _).length_le
    _ ≤ data.length := (List.take_sublist longest data).length_le

theorem find_le (sequence data : List UInt8) (bound : Nat) : find sequence data bound ≤ bound := by
  induction bound generalizing data with
  | zero => simp [find]
  | succ bound ih =>
    unfold find
    split
    · exact Nat.zero_le _
    · cases data with
      | nil => exact Nat.le_refl _
      | cons b rest => exact Nat.succ_le_succ (ih rest)

theorem untilSequence_le (data sequence : List UInt8) (max : Option Nat) :
    untilSequence data sequence max ≤ data.length := by
  unfold untilSequence
  split
  · exact Nat.zero_le _
  · exact Nat.le_trans (find_le sequence data _) (limit_le data max)

theorem untilMarker_le (marker : UInt8) (escapes : UInt8 → Bool) (data : List UInt8) :
    untilMarker marker escapes data ≤ data.length := by
  fun_induction untilMarker marker escapes data with
  | case1 => exact Nat.le_refl _
  -- A marker that is the last byte is not taken for an escape, so one byte is not counted as two.
  | case2 => exact Nat.zero_le _
  | case3 => exact Nat.le_refl _
  | case4 next rest _ ih => exact Nat.add_le_add_right ih 2
  | case5 => exact Nat.zero_le _
  | case6 b next rest _ ih => exact Nat.succ_le_succ ih

end Scan

namespace Cursor

variable {c : Cursor} {n : Nat}

theorem take_of_le (h : n ≤ c.remaining) : c.take n = .ok (c.rest.take n, c.advance n) :=
  if_pos h

theorem length_rest (c : Cursor) : c.rest.length = c.remaining := List.length_drop

theorem length_take_rest (h : n ≤ c.remaining) : (c.rest.take n).length = n := by
  rw [List.length_take, length_rest, Nat.min_eq_left h]

theorem take_min_remaining (c : Cursor) (n : Nat) :
    c.rest.take (min n c.remaining) = c.rest.take n := by
  rw [← length_rest, ← List.take_take, List.take_length]

theorem peek?_eq (c : Cursor) : c.peek? = c.rest.head? := by
  rw [peek?, rest, List.head?_drop]

theorem rest_advance (c : Cursor) (n : Nat) : (c.advance n).rest = c.rest.drop n := by
  rw [rest, rest, List.drop_drop]
  rfl

theorem take_of_front {front after : List UInt8} (h : c.rest = front ++ after) :
    c.take front.length = .ok (front, c.advance front.length) := by
  have enough : front.length ≤ c.remaining := by
    rw [← length_rest, h, List.length_append]
    exact Nat.le_add_right _ _
  rw [take_of_le enough, h, List.take_left]

theorem take_of_short (h : c.rest.length < n) :
    c.take n = .error (.unexpectedEof c.offset n c.remaining) := by
  rw [length_rest] at h
  rw [take, if_neg (Nat.not_le_of_lt h)]

end Cursor

namespace Action

theorem asciiField_eq {n : Nat} {c : Cursor} (h : n ≤ c.remaining) :
    asciiField n c = .ok (.text (Value.latin1 (c.rest.take n)), c.advance n) := by
  rw [asciiField, Cursor.take_of_le h]
  rfl

theorem bytesField_eq {n : Nat} {c : Cursor} (h : n ≤ c.remaining) :
    bytesField n c = .ok (.bytes (c.rest.take n), c.advance n) := by
  rw [bytesField, Cursor.take_of_le h]
  rfl

theorem asciiField_of_le (n : Nat) (c : Cursor) (h : n ≤ c.remaining) :
    ∃ v, asciiField n c = .ok (v, c.advance n) :=
  ⟨_, asciiField_eq h⟩

theorem bytesField_of_le (n : Nat) (c : Cursor) (h : n ≤ c.remaining) :
    ∃ v, bytesField n c = .ok (v, c.advance n) :=
  ⟨_, bytesField_eq h⟩

theorem readRun_of_ok {scan : List UInt8 → Nat} {f : Nat → Cursor → Except Error (Value × Cursor)}
    {s : State} {v : Value} {n : Nat} (id : String)
    (h : f (scan s.cursor.rest) s.cursor = .ok (v, s.cursor.advance n)) :
    readRun id scan f s = .ok () { s with
      cursor := s.cursor.advance n
      scopes := s.scopes.write id v } := by
  rw [readRun, run_bind, Run.read_apply, h]
  rfl

end Action

/-- The strict read of a run is served, as the run was measured in the rest of the input. -/
theorem Serves.measured {α : Type} {f : Nat → Cursor → Except Error (α × Cursor)}
    {scan : List UInt8 → Nat}
    (hf : ∀ n (c : Cursor), n ≤ c.remaining → ∃ v, f n c = .ok (v, c.advance n))
    (hscan : ∀ data, scan data ≤ data.length) : Serves fun c => f (scan c.rest) c := by
  intro c h
  have fits : scan c.rest ≤ c.remaining := by
    rw [← Cursor.length_rest]
    exact hscan c.rest
  obtain ⟨v, served⟩ := hf _ c fits
  refine ⟨v, _, served, Cursor.advance_ahead ?_⟩
  simp only [Cursor.remaining] at fits
  omega

end ByteSchema
