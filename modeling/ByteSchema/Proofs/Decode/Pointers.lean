import Mathlib.Algebra.Order.Ring.Nat
import ByteSchema.Proofs.Decode.Ends
import ByteSchema.Proofs.Decode.Positional

/-!
# Cursors in place

A `Pointer` is a cursor whose operations move it in place and count in words of 64 bits, so that it
matters whether a check comes before a move, and whether a sum is formed before the check of what
goes into it. `Refines` says that an operation in place does what the one of `Cursor` does, and that
the pointer stands still where that one fails.
-/

namespace ByteSchema

/-- A cursor that is moved in place. Sums and differences of its offset wrap. -/
structure Pointer where
  data : List UInt8
  offset : UInt64
  order : ByteOrder

/-- What an operation has changed stays changed where it fails. -/
abbrev Moving := EStateM Error Pointer

namespace Pointer

/-! ### Operations -/

def size (p : Pointer) : UInt64 := UInt64.ofNat p.data.length

def remaining (p : Pointer) : UInt64 := p.size - p.offset

def rest (p : Pointer) : List UInt8 := p.data.drop p.offset.toNat

def peek? (p : Pointer) : Option UInt8 := p.data[p.offset.toNat]?

/-- The bytes up to the offset `stop`. -/
def slice (p : Pointer) (stop : UInt64) : List UInt8 :=
  (p.data.take stop.toNat).drop p.offset.toNat

/-- `n`, or what remains if that is less. -/
def clamp (p : Pointer) (n : UInt64) : UInt64 := if p.remaining < n then p.remaining else n

def move (p : Pointer) (n : UInt64) : Pointer := { p with offset := p.offset + n }

def take (n : UInt64) : Moving (List UInt8) := do
  let p ← get
  if p.remaining < n then
    throw (.unexpectedEof p.offset.toNat n.toNat p.remaining.toNat)
  else do
    set (p.move n)
    return p.slice (p.offset + n)

def takeLenient (n : UInt64) : Moving (List UInt8) := do
  let p ← get
  let n := p.clamp n
  set (p.move n)
  return p.slice (p.offset + n)

def readByte : Moving UInt8 := do
  let p ← get
  match p.peek? with
  | some b => do
    set (p.move 1)
    return b
  | none => throw (.unexpectedEof p.offset.toNat 1 0)

def readUInt (n : UInt64) : Moving UInt64 := do
  if 1 ≤ n ∧ n ≤ 8 then do
    let bytes ← take n
    return Cursor.toWord (← get).order bytes
  else throw (.invalidSchema (.integerWidth n.toNat))

def readInt (n : UInt64) : Moving Int64 := do
  return Cursor.signed n.toNat (← readUInt n)

def skip (n : UInt64) : Moving Unit := do
  let p ← get
  if p.remaining < n then
    throw (.unexpectedEof p.offset.toNat n.toNat p.remaining.toNat)
  else set (p.move n)

def skipLenient (n : UInt64) : Moving UInt64 := do
  let p ← get
  let n := p.clamp n
  set (p.move n)
  return n

def setOrder (order : ByteOrder) : Moving Unit := modify fun p => { p with order := order }

/-! ### Pointers inside their data -/

def cursor (p : Pointer) : Cursor := ⟨p.data, p.offset.toNat, p.order⟩

structure Inside (p : Pointer) : Prop where
  short : p.data.length < 2 ^ 64
  le : p.offset.toNat ≤ p.data.length

section

variable {p : Pointer} (h : p.Inside)
include h

theorem toNat_remaining : p.remaining.toNat = p.cursor.remaining := by
  have size : p.size.toNat = p.data.length := UInt64.toNat_ofNat_of_lt' h.short
  rw [remaining, UInt64.toNat_sub_of_le, size]
  · rfl
  · rw [UInt64.le_iff_toNat_le, size]
    exact h.le

theorem remaining_lt_iff {n : UInt64} : p.remaining < n ↔ ¬ n.toNat ≤ p.cursor.remaining := by
  rw [UInt64.lt_iff_toNat_lt, toNat_remaining h, Nat.not_le]

theorem toNat_clamp {n : UInt64} : (p.clamp n).toNat = min n.toNat p.cursor.remaining := by
  unfold clamp
  split
  · next less =>
    rw [remaining_lt_iff h] at less
    rw [toNat_remaining h]
    omega
  · next enough =>
    rw [remaining_lt_iff h] at enough
    omega

theorem clamp_le {n : UInt64} : (p.clamp n).toNat ≤ p.cursor.remaining := by
  rw [toNat_clamp h]
  exact Nat.min_le_right _ _

variable {n : UInt64} (enough : n.toNat ≤ p.cursor.remaining)
include enough

/-- Where there are enough bytes, the sum of the offset and their number does not wrap. -/
theorem toNat_stop : (p.offset + n).toNat = p.offset.toNat + n.toNat := by
  have total : p.offset.toNat + n.toNat ≤ p.data.length := by
    have le := h.le
    simp only [Cursor.remaining, Cursor.length, cursor] at enough
    omega
  rw [UInt64.toNat_add]
  exact Nat.mod_eq_of_lt (Nat.lt_of_le_of_lt total h.short)

theorem cursor_move : (p.move n).cursor = p.cursor.advance n.toNat := by
  rw [cursor, move, toNat_stop h enough]
  rfl

theorem slice_eq : p.slice (p.offset + n) = p.cursor.rest.take n.toNat := by
  rw [slice, toNat_stop h enough, List.drop_take, Nat.add_sub_cancel_left]
  rfl

end

/-! ### Agreement with cursors -/

/-- How an operation ends from `p` beside a read of the cursor there: with the same result where the
read moves to, or with the same error and without a change. -/
inductive Agrees {α : Type} (p : Pointer) :
    EStateM.Result Error Pointer α → Except Error (α × Cursor) → Prop
  | moved {a : α} {q : Pointer} {c : Cursor} : q.cursor = c → Agrees p (.ok a q) (.ok (a, c))
  | stayed {e : Error} : Agrees p (.error e p) (.error e)

theorem Agrees.exists_ok {α : Type} {p : Pointer} {result : EStateM.Result Error Pointer α} {a : α}
    {c : Cursor} (h : Agrees p result (.ok (a, c))) : ∃ q, result = .ok a q ∧ q.cursor = c := by
  cases h with
  | moved there => exact ⟨_, rfl, there⟩

theorem Agrees.eq_error {α : Type} {p : Pointer} {result : EStateM.Result Error Pointer α}
    {e : Error} (h : Agrees p result (.error e)) : result = .error e p := by
  cases h
  rfl

/-- From inside the data, `m` does in place what `f` does. -/
def Refines {α : Type} (m : Moving α) (f : Cursor → Except Error (α × Cursor)) : Prop :=
  ∀ p : Pointer, p.Inside → Agrees p (m p) (f p.cursor)

section

variable {α β : Type} {m : Moving α} {f : Cursor → Except Error (α × Cursor)}

theorem run_map (g : α → β) (m : Moving α) (p : Pointer) : (g <$> m) p = match m p with
    | .ok a q => .ok (g a) q
    | .error e q => .error e q := by
  show EStateM.map g m p = _
  unfold EStateM.map
  cases m p <;> rfl

theorem run_get_bind (g : Pointer → Moving α) (p : Pointer) : (get >>= g : Moving α) p = g p p :=
  rfl

theorem Refines.map (hm : Refines m f) (g : α → β) :
    Refines (g <$> m) fun c => (f c).map fun r => (g r.1, r.2) := by
  intro p h
  have agrees := hm p h
  rw [run_map]
  dsimp only
  generalize m p = result, f p.cursor = read at agrees ⊢
  cases agrees with
  | moved there => exact .moved there
  | stayed => exact .stayed

/-- A check for `n` bytes, and a move by as many when there are. -/
theorem refines_of_check (n : UInt64) (value : Pointer → α)
    (hm : ∀ p : Pointer, m p = if p.remaining < n
      then .error (.unexpectedEof p.offset.toNat n.toNat p.remaining.toNat) p
      else .ok (value p) (p.move n))
    (hshort : ∀ c : Cursor, ¬ n.toNat ≤ c.remaining →
      f c = .error (.unexpectedEof c.offset n.toNat c.remaining))
    (henough : ∀ p : Pointer, p.Inside → n.toNat ≤ p.cursor.remaining →
      f p.cursor = .ok (value p, p.cursor.advance n.toNat)) : Refines m f := by
  intro p h
  rw [hm]
  by_cases enough : n.toNat ≤ p.cursor.remaining
  · rw [if_neg (mt (remaining_lt_iff h).mp (not_not_intro enough)), henough p h enough]
    exact .moved (cursor_move h enough)
  · rw [if_pos ((remaining_lt_iff h).mpr enough), hshort _ enough, toNat_remaining h]
    exact .stayed

/-- A move by `n` bytes or as many as there are. -/
theorem refines_of_clamp (n : UInt64) (value : Pointer → α)
    (hm : ∀ p : Pointer, m p = .ok (value p) (p.move (p.clamp n)))
    (hf : ∀ p : Pointer, p.Inside →
      f p.cursor = .ok (value p, p.cursor.advance (min n.toNat p.cursor.remaining))) :
    Refines m f := by
  intro p h
  rw [hm, hf p h, ← toNat_clamp h]
  exact .moved (cursor_move h (clamp_le h))

end

theorem take_refines (n : UInt64) : Refines (take n) (Cursor.take · n.toNat) := by
  refine refines_of_check n (fun p => p.slice (p.offset + n)) (fun p => ?_)
    (fun c short => if_neg short) fun p h enough => ?_
  · rw [take, run_get_bind]
    split <;> rfl
  · rw [Cursor.take_of_le enough, slice_eq h enough]

theorem skip_refines (n : UInt64) :
    Refines (skip n) fun c => (c.skip n.toNat).map fun next => ((), next) := by
  refine refines_of_check n (fun _ => ()) (fun p => ?_) (fun c short => ?_) fun p h enough => ?_
  · rw [skip, run_get_bind]
    split <;> rfl
  · rw [Cursor.skip, if_neg short]
    rfl
  · rw [Cursor.skip, if_pos enough]
    rfl

theorem takeLenient_refines (n : UInt64) :
    Refines (takeLenient n) fun c => .ok (c.takeLenient n.toNat) := by
  refine refines_of_clamp n (fun p => p.slice (p.offset + p.clamp n)) (fun p => rfl) fun p h => ?_
  rw [slice_eq h (clamp_le h), toNat_clamp h, Cursor.take_min_remaining]
  rfl

theorem skipLenient_refines (n : UInt64) : Refines (UInt64.toNat <$> skipLenient n) fun c =>
    .ok ((c.skipLenient n.toNat).offset - c.offset, c.skipLenient n.toNat) := by
  refine refines_of_clamp n (fun p => (p.clamp n).toNat) (fun p => rfl) fun p h => ?_
  rw [toNat_clamp h]
  exact congrArg (fun k => Except.ok (k, _)) (Nat.add_sub_cancel_left _ _)

theorem readByte_refines : Refines readByte Cursor.readByte := by
  intro p h
  have same : p.peek? = p.cursor.peek? := rfl
  rw [readByte, run_get_bind, Cursor.readByte, same]
  cases hpeek : p.cursor.peek? with
  | none => exact .stayed
  | some b =>
    have enough : (1 : UInt64).toNat ≤ p.cursor.remaining := by
      have lt := (List.getElem?_eq_some_iff.mp hpeek).1
      show 1 ≤ p.cursor.data.length - p.cursor.offset
      omega
    exact .moved (cursor_move h enough)

theorem readUInt_apply (n : UInt64) (p : Pointer) : readUInt n p =
    if 1 ≤ n.toNat ∧ n.toNat ≤ 8 then
      match take n p with
      | .ok bytes q => .ok (Cursor.toWord q.order bytes) q
      | .error e q => .error e q
    else .error (.invalidSchema (.integerWidth n.toNat)) p := by
  have pos : 1 ≤ n ↔ 1 ≤ n.toNat := UInt64.le_iff_toNat_le
  have few : n ≤ 8 ↔ n.toNat ≤ 8 := UInt64.le_iff_toNat_le
  rw [readUInt]
  simp only [pos, few]
  split
  · rw [run_bind]
    cases take n p <;> rfl
  · rfl

/-- The word that is read is the number that the cursor reads, and the pointer is behind it. -/
theorem readUInt_agrees {n : UInt64} {p : Pointer} (h : p.Inside) :
    (∃ word q v, readUInt n p = .ok word q ∧ p.cursor.readUInt n.toNat = .ok (v, q.cursor) ∧
      1 ≤ n.toNat ∧ n.toNat ≤ 8 ∧ word.toNat = v ∧ v < 2 ^ (8 * n.toNat)) ∨
    ∃ e, readUInt n p = .error e p ∧ p.cursor.readUInt n.toNat = .error e := by
  rw [readUInt_apply]
  by_cases width : 1 ≤ n.toNat ∧ n.toNat ≤ 8
  · have taken : Agrees p (take n p) (p.cursor.take n.toNat) := take_refines n p h
    rw [if_pos width, Cursor.readUInt, if_pos width]
    by_cases enough : n.toNat ≤ p.cursor.remaining
    · rw [Cursor.take_of_le enough] at taken ⊢
      obtain ⟨q, hq, there⟩ := taken.exists_ok
      have order : q.order = p.cursor.order := congrArg Cursor.order there
      have length : (p.cursor.rest.take n.toNat).length = n.toNat :=
        Cursor.length_take_rest enough
      have bound := Cursor.toNat_lt p.cursor.order (p.cursor.rest.take n.toNat)
      rw [length] at bound
      refine .inl ⟨Cursor.toWord q.order (p.cursor.rest.take n.toNat), q,
        Cursor.toNat p.cursor.order (p.cursor.rest.take n.toNat), ?_, ?_, width.1, width.2, ?_, bound⟩
      · rw [hq]
      · rw [there]
        rfl
      · rw [order]
        exact Cursor.toNat_toWord _ (by rw [length]; exact width.2)
    · have short : p.cursor.take n.toNat = .error _ := if_neg enough
      rw [short] at taken ⊢
      rw [taken.eq_error]
      exact .inr ⟨_, rfl, rfl⟩
  · rw [if_neg width, Cursor.readUInt, if_neg width]
    exact .inr ⟨_, rfl, rfl⟩

theorem readUInt_refines (n : UInt64) :
    Refines (UInt64.toNat <$> readUInt n) (Cursor.readUInt · n.toNat) := by
  intro p h
  dsimp only
  rw [run_map]
  obtain ⟨word, q, v, hm, hf, -, -, rfl, -⟩ | ⟨e, hm, hf⟩ := readUInt_agrees h
  · rw [hm, hf]
    exact .moved rfl
  · rw [hm, hf]
    exact .stayed

theorem readInt_refines (n : UInt64) :
    Refines (Int64.toInt <$> readInt n) (Cursor.readInt · n.toNat) := by
  intro p h
  dsimp only
  rw [run_map, readInt, run_bind, Cursor.readInt]
  obtain ⟨word, q, v, hm, hf, pos, few, rfl, bound⟩ | ⟨e, hm, hf⟩ := readUInt_agrees h
  · rw [hm, hf]
    have sign := Cursor.toInt_signed pos few bound
    show Agrees p (.ok (Cursor.signed n.toNat word).toInt q) (.ok (_, q.cursor))
    rw [sign]
    exact .moved rfl
  · rw [hm, hf]
    exact .stayed

end Pointer

end ByteSchema
