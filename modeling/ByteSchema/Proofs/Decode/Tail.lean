import ByteSchema.Proofs.Decode.Reads

/-!
# More input behind

A strict read sees the bytes it takes and nothing after them. Where it did not fail for lack of
input, it gives the same with more input behind.
-/

namespace ByteSchema

def Error.LacksInput (e : Error) : Prop :=
  ∃ offset requested available, e = .unexpectedEof offset requested available

namespace Cursor

/-- The same place in an input that goes on with `tail`. -/
def extend (c : Cursor) (tail : List UInt8) : Cursor := { c with data := c.data ++ tail }

variable {c : Cursor} {tail : List UInt8}

theorem extend_nil : c.extend [] = c := by
  simp [extend]

theorem length_extend : (c.extend tail).length = c.length + tail.length := List.length_append

theorem rest_extend (h : c.offset ≤ c.length) : (c.extend tail).rest = c.rest ++ tail :=
  List.drop_append_of_le_length h

end Cursor

/-- Unless it lacks input, `f` gives the same with more input behind, the cursor in it included. -/
def Strict {α : Type} (f : Cursor → Except Error (α × Cursor)) : Prop :=
  ∀ (c : Cursor) (tail : List UInt8), c.offset ≤ c.length →
    (∃ e, f c = .error e ∧ e.LacksInput) ∨
      f (c.extend tail) = (f c).map fun r => (r.1, r.2.extend tail)

namespace Strict

variable {α β : Type}

/-- Whatever is made of the result may depend on the byte order, but not on the input. -/
theorem map {f : Cursor → Except Error (α × Cursor)} (hf : Strict f) (g : ByteOrder → α → β) :
    Strict fun c => do
      let (a, next) ← f c
      return (g c.order a, next) := by
  intro c tail h
  dsimp only
  obtain ⟨e, he, lacks⟩ | same := hf c tail h
  · rw [he]
    exact .inl ⟨e, rfl, lacks⟩
  · rw [same]
    refine .inr ?_
    cases f c <;> rfl

theorem congr {f g : Cursor → Except Error (α × Cursor)} (hf : Strict f) (h : ∀ c, g c = f c) :
    Strict g :=
  funext h ▸ hf

end Strict

namespace Cursor

theorem take_strict (n : Nat) : Strict (take · n) := by
  intro c tail h
  have length : (c.extend tail).length = c.length + tail.length := length_extend
  by_cases enough : n ≤ c.remaining
  · refine .inr ?_
    have short : n ≤ c.rest.length := by
      rw [rest, List.length_drop]
      exact enough
    have enough' : n ≤ (c.extend tail).remaining := by
      simp only [remaining] at enough ⊢
      have same : (c.extend tail).offset = c.offset := rfl
      omega
    dsimp only [take]
    rw [if_pos enough, if_pos enough', rest_extend h, List.take_append_of_le_length short]
    rfl
  · exact .inl ⟨_, if_neg enough, _, _, _, rfl⟩

theorem skip_strict (n : Nat) : Strict fun c => (skip c n).map fun next => ((), next) := by
  refine ((take_strict n).map fun _ _ => ()).congr fun c => ?_
  dsimp only [skip, take]
  split <;> rfl

theorem peek?_extend {c : Cursor} {tail : List UInt8} (h : c.peek? ≠ none) :
    (c.extend tail).peek? = c.peek? := by
  have inside : c.offset < c.length := by
    apply Nat.lt_of_not_le
    exact fun past => h (List.getElem?_eq_none past)
  exact List.getElem?_append_left inside

theorem readByte_strict : Strict readByte := by
  intro c tail h
  cases hpeek : c.peek? with
  | none => exact .inl ⟨_, by rw [readByte, hpeek], _, _, _, rfl⟩
  | some b =>
    refine .inr ?_
    rw [readByte, readByte, peek?_extend (by simp [hpeek]), hpeek]
    rfl

theorem readUInt_strict (n : Nat) : Strict (readUInt · n) := by
  intro c tail h
  unfold readUInt
  split
  · exact (take_strict n).map (fun order bytes => toNat order bytes) c tail h
  · exact .inr rfl

theorem readInt_strict (n : Nat) : Strict (readInt · n) :=
  (readUInt_strict n).map fun _ raw => (BitVec.ofNat (8 * n) raw).toInt

end Cursor

theorem Vint.read_strict (keepMarker : Bool) : Strict fun c => do
    let (value, length, next) ← read c keepMarker
    return ((value, length), next) := by
  intro c tail h
  dsimp only [read]
  cases hpeek : c.peek? with
  | none => exact .inl ⟨_, rfl, _, _, _, rfl⟩
  | some first =>
    rw [Cursor.peek?_extend (by simp [hpeek]), hpeek]
    dsimp only
    by_cases hzero : first = 0
    · rw [if_pos hzero, if_pos hzero]
      exact .inr rfl
    · rw [if_neg hzero, if_neg hzero]
      have taken := Cursor.take_strict (lengthOf first) c tail h
      dsimp only at taken
      obtain ⟨e, he, lacks⟩ | same := taken
      · rw [he]
        exact .inl ⟨e, rfl, lacks⟩
      · rw [same]
        refine .inr ?_
        cases c.take (lengthOf first) <;> rfl

namespace Action

theorem uintField_strict (n : Nat) : Strict (uintField n) :=
  (Cursor.readUInt_strict n).map fun _ v => Value.ofNat v

theorem intField_strict (n : Nat) : Strict (intField n) :=
  (Cursor.readInt_strict n).map fun _ v => Value.int (Int64.ofInt v)

theorem asciiField_strict (n : Nat) : Strict (asciiField n) :=
  (Cursor.take_strict n).map fun _ data => Value.text (Value.latin1 data)

theorem bytesField_strict (n : Nat) : Strict (bytesField n) :=
  (Cursor.take_strict n).map fun _ data => Value.bytes data

end Action

end ByteSchema
