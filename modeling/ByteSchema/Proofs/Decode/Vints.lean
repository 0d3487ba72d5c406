import Mathlib.Algebra.Order.Ring.Nat
import ByteSchema.Proofs.Decode.Ends
import ByteSchema.Proofs.Decode.Positional
import ByteSchema.Proofs.Value.Words

/-!
# Integers that carry their own length, read back

A number `v` of up to `7 * length` bits is laid out as `2 ^ (7 * length) + v` in `length` bytes, so
that the first one bit is the marker. `vints_read_back` says that a read undoes this, reads nothing
else, and names the cause where it fails.
-/

namespace ByteSchema

open Cursor

namespace Vint

def encode (length v : Nat) : List UInt8 := Cursor.encode .big length (2 ^ (7 * length) + v)

/-- The first one bit of `first` has `length - 1` zeros before it. -/
structure Announces (first : UInt8) (length : Nat) : Prop where
  pos : 1 ≤ length
  few : length ≤ 8
  low : 2 ^ (8 - length) ≤ first.toNat
  high : first.toNat < 2 ^ (9 - length)

theorem Announces.ne_zero {first : UInt8} {length : Nat} (h : Announces first length) :
    first ≠ 0 := by
  rintro rfl
  exact absurd h.low (Nat.not_le_of_lt (Nat.two_pow_pos _))

theorem Announces.lengthOf_eq {first : UInt8} {length : Nat} (h : Announces first length) :
    lengthOf first = length := by
  obtain ⟨pos, few, low, high⟩ := h
  have nonzero : first.toNat ≠ 0 := by
    have := Nat.two_pow_pos (8 - length)
    omega
  have exponent : 9 - length = 8 - length + 1 := by omega
  rw [lengthOf, (Nat.log2_eq_iff nonzero).mpr ⟨low, exponent ▸ high⟩]
  omega

theorem announces_lengthOf {first : UInt8} (h : first ≠ 0) : Announces first (lengthOf first) := by
  have nonzero : first.toNat ≠ 0 := fun zero => h (UInt8.toNat_inj.mp zero)
  have below : first.toNat.log2 < 8 := (Nat.log2_lt nonzero).mpr first.toNat_lt
  obtain ⟨low, high⟩ := (Nat.log2_eq_iff nonzero).mp rfl
  unfold lengthOf
  refine ⟨by omega, by omega, ?_, ?_⟩
  · rwa [show 8 - (8 - first.toNat.log2) = first.toNat.log2 by omega]
  · rwa [show 9 - (8 - first.toNat.log2) = first.toNat.log2 + 1 by omega]

/-! ### Numbers with a marker -/

/-- What the first byte and the others come to, with or without the marker. -/
def valueOf (keepMarker : Bool) (first : UInt8) (others : List UInt8) : Nat :=
  others.foldl (fun acc b => acc * 256 + b.toNat) (head keepMarker first (others.length + 1))

/-- The bits behind the marker, where `length` bytes follow. A byte cannot be shifted by 8. -/
def mask (length : Nat) : UInt8 := if length < 7 then 0xff >>> UInt8.ofNat (length + 1) else 0

/-- The same number in a word: the marker is masked off, and the other bytes are shifted in. -/
def wordOf (keepMarker : Bool) (first : UInt8) (others : List UInt8) : UInt64 :=
  others.foldl shiftIn (if keepMarker then first else first &&& mask others.length).toUInt64

section Marker

variable {first : UInt8} {others : List UInt8}

/-- The marker of the first byte, with the places that follow it in the other bytes. -/
theorem marker_eq (few : others.length + 1 ≤ 8) : 2 ^ (7 * (others.length + 1)) =
    2 ^ (8 - (others.length + 1)) * 2 ^ (8 * others.length) := by
  rw [← Nat.pow_add]
  congr 1
  omega

theorem announces_iff (few : others.length + 1 ≤ 8) :
    Announces first (others.length + 1) ↔
      2 ^ (7 * (others.length + 1)) ≤ toNat .big (first :: others) ∧
      toNat .big (first :: others) <
        2 ^ (7 * (others.length + 1)) + 2 ^ (7 * (others.length + 1)) := by
  have place : 0 < 2 ^ (8 * others.length) := Nat.two_pow_pos _
  have leading : toNat .big (first :: others) / 2 ^ (8 * others.length) = first.toNat := by
    rw [toNat_big_cons, Nat.mul_comm, Nat.mul_add_div place, Nat.div_eq_of_lt (toNat_lt .big others),
      Nat.add_zero]
  have double : 2 ^ (9 - (others.length + 1)) =
      2 ^ (8 - (others.length + 1)) + 2 ^ (8 - (others.length + 1)) := by
    rw [show 9 - (others.length + 1) = 8 - (others.length + 1) + 1 by omega, Nat.pow_succ]
    omega
  rw [marker_eq few, ← Nat.add_mul, ← double, ← Nat.le_div_iff_mul_le place,
    ← Nat.div_lt_iff_lt_mul place, leading]
  exact ⟨fun h => ⟨h.low, h.high⟩, fun h => ⟨Nat.succ_pos _, few, h.1, h.2⟩⟩

theorem valueOf_eq (keepMarker : Bool) (h : Announces first (others.length + 1)) :
    valueOf keepMarker first others =
      toNat .big (first :: others) - if keepMarker then 0 else 2 ^ (7 * (others.length + 1)) := by
  obtain ⟨-, few, low, high⟩ := h
  rw [valueOf, foldl_digits, toNat_big_cons, marker_eq few]
  cases keepMarker with
  | true => rfl
  | false =>
    have exponent : 9 - (others.length + 1) = 8 - (others.length + 1) + 1 := by omega
    rw [exponent, Nat.pow_succ] at high
    have unmarked : first.toNat % 2 ^ (8 - (others.length + 1)) =
        first.toNat - 2 ^ (8 - (others.length + 1)) := by
      rw [Nat.mod_eq_sub_mod low, Nat.mod_eq_of_lt (by omega)]
    have below := Nat.mul_le_mul_right (2 ^ (8 * others.length)) low
    rw [head, if_neg Bool.false_ne_true, Nat.shiftLeft_eq, Nat.one_mul, unmarked, Nat.sub_mul,
      if_neg Bool.false_ne_true]
    omega

theorem toNat_masked (keepMarker : Bool) {length : Nat} (few : length < 8) :
    (if keepMarker then first else first &&& mask length).toNat =
      head keepMarker first (length + 1) := by
  have ones : ∀ n < 8, (mask n).toNat = 2 ^ (7 - n) - 1 := by decide
  cases keepMarker with
  | true => rfl
  | false =>
    rw [if_neg Bool.false_ne_true, UInt8.toNat_and, ones _ few, Nat.and_two_pow_sub_one_eq_mod,
      head, if_neg Bool.false_ne_true, Nat.shiftLeft_eq, Nat.one_mul, Nat.add_comm, Nat.sub_add_eq]

theorem toNat_wordOf (keepMarker : Bool) (few : others.length < 8) :
    (wordOf keepMarker first others).toNat = valueOf keepMarker first others := by
  have start : (if keepMarker then first else first &&& mask others.length).toNat =
      head keepMarker first (others.length + 1) := toNat_masked keepMarker few
  rw [← UInt8.toNat_toUInt64] at start
  have byte : head keepMarker first (others.length + 1) < 2 ^ 8 := by
    rw [← start, UInt8.toNat_toUInt64]
    exact UInt8.toNat_lt _
  have room : 2 ^ 8 ≤ 2 ^ (8 * (8 - others.length)) :=
    Nat.pow_le_pow_right (by decide) (by omega)
  rw [wordOf, toNat_foldl_shiftIn others _ (by omega) (by omega), start, valueOf]

end Marker

/-! ### Reads -/

section Reads

variable {c : Cursor} {first : UInt8} {others after : List UInt8}

theorem read_of_end (keepMarker : Bool) (h : c.rest = []) :
    read c keepMarker = .error (.unexpectedEof c.offset 1 0) := by
  rw [read, peek?_eq, h]
  rfl

theorem read_of_zero (keepMarker : Bool) (h : c.rest = 0 :: after) :
    read c keepMarker = .error (.invalidVint c.offset 0) := by
  rw [read, peek?_eq, h]
  rfl

theorem read_of_marked (keepMarker : Bool) (h : c.rest = first :: after) (marked : first ≠ 0) :
    read c keepMarker = (do
      let (bytes, next) ← c.take (lengthOf first)
      return ((bytes.drop 1).foldl (fun acc b => acc * 256 + b.toNat)
        (head keepMarker first (lengthOf first)), lengthOf first, next)) := by
  rw [read, peek?_eq, h]
  exact if_neg marked

theorem read_of_short (keepMarker : Bool) (h : c.rest = first :: after) (marked : first ≠ 0)
    (short : c.remaining < lengthOf first) :
    read c keepMarker = .error (.unexpectedEof c.offset (lengthOf first) c.remaining) := by
  rw [read_of_marked keepMarker h marked, take_of_short (by rwa [length_rest])]
  rfl

theorem read_of_front (keepMarker : Bool) (h : c.rest = (first :: others) ++ after)
    (announced : Announces first (others.length + 1)) : read c keepMarker =
      .ok (valueOf keepMarker first others, others.length + 1, c.advance (others.length + 1)) := by
  have taken : c.take (others.length + 1) = .ok (first :: others, c.advance (others.length + 1)) :=
    take_of_front h
  rw [read_of_marked keepMarker h announced.ne_zero, announced.lengthOf_eq, taken]
  rfl

/-- Why there is no number at `c`. -/
inductive Refused (c : Cursor) : Error → Prop
  | atEnd : c.rest = [] → Refused c (.unexpectedEof c.offset 1 0)
  | unmarked {after : List UInt8} : c.rest = 0 :: after → Refused c (.invalidVint c.offset 0)
  | short {first : UInt8} {length : Nat} {after : List UInt8} : c.rest = first :: after →
      Announces first length → c.remaining < length →
      Refused c (.unexpectedEof c.offset length c.remaining)

theorem read_of_refused {e : Error} (keepMarker : Bool) (h : Refused c e) :
    read c keepMarker = .error e := by
  cases h with
  | atEnd h => exact read_of_end keepMarker h
  | unmarked h => exact read_of_zero keepMarker h
  | short h announced short =>
    obtain rfl := announced.lengthOf_eq
    exact read_of_short keepMarker h announced.ne_zero short

theorem refused_or_front (c : Cursor) : (∃ e, Refused c e) ∨ ∃ first others after,
    c.rest = (first :: others) ++ after ∧ Announces first (others.length + 1) := by
  match hrest : c.rest with
  | [] => exact .inl ⟨_, .atEnd hrest⟩
  | first :: tail =>
    by_cases zero : first = 0
    · subst zero
      exact .inl ⟨_, .unmarked hrest⟩
    have announced := announces_lengthOf zero
    by_cases short : c.remaining < lengthOf first
    · exact .inl ⟨_, .short hrest announced short⟩
    · have pos := announced.pos
      rw [← length_rest, hrest, List.length_cons] at short
      have width : (tail.take (lengthOf first - 1)).length + 1 = lengthOf first := by
        rw [List.length_take]
        omega
      refine .inr ⟨first, tail.take (lengthOf first - 1), tail.drop (lengthOf first - 1), ?_, ?_⟩
      · rw [List.cons_append, List.take_append_drop]
      · rwa [width]

/-! ### Numbers read back -/

theorem encode_eq {length v : Nat} (pos : 1 ≤ length) (few : length ≤ 8)
    (h : v < 2 ^ (7 * length)) : ∃ first others, encode length v = first :: others ∧
      others.length + 1 = length ∧ Announces first (others.length + 1) ∧
      toNat .big (first :: others) = 2 ^ (7 * length) + v := by
  have width : (encode length v).length = length := length_encode .big length _
  have room : 2 ^ (7 * length + 1) ≤ 2 ^ (8 * length) :=
    Nat.pow_le_pow_right (by decide) (by omega)
  have number : toNat .big (encode length v) = 2 ^ (7 * length) + v :=
    toNat_encode .big (by rw [Nat.pow_succ] at room; omega)
  cases hbytes : encode length v with
  | nil =>
    rw [hbytes, List.length_nil] at width
    omega
  | cons first others =>
    rw [hbytes] at width number
    rw [List.length_cons] at width
    subst width
    exact ⟨first, others, rfl, rfl, (announces_iff few).mpr (by omega), number⟩

theorem read_encode {length v : Nat} (keepMarker : Bool) (pos : 1 ≤ length) (few : length ≤ 8)
    (h : v < 2 ^ (7 * length)) (hrest : c.rest = encode length v ++ after) :
    read c keepMarker =
      .ok (if keepMarker then 2 ^ (7 * length) + v else v, length, c.advance length) := by
  obtain ⟨first, others, hbytes, rfl, announced, number⟩ := encode_eq pos few h
  rw [hbytes] at hrest
  rw [read_of_front keepMarker hrest announced, valueOf_eq keepMarker announced, number]
  cases keepMarker with
  | true => rfl
  | false => rw [if_neg Bool.false_ne_true, Nat.add_sub_cancel_left]; rfl

theorem encode_of_read {next : Cursor} {keepMarker : Bool} {value length : Nat}
    (h : read c keepMarker = .ok (value, length, next)) :
    ∃ v first others, 1 ≤ length ∧ length ≤ 8 ∧ v < 2 ^ (7 * length) ∧ length ≤ c.remaining ∧
      c.rest.take length = first :: others ∧ encode length v = first :: others ∧
      next = c.advance length ∧ value = (if keepMarker then 2 ^ (7 * length) + v else v) ∧
      value = (wordOf keepMarker first others).toNat := by
  obtain ⟨e, refused⟩ | ⟨first, others, after, hrest, announced⟩ := refused_or_front c
  · rw [read_of_refused keepMarker refused] at h
    cases h
  rw [read_of_front keepMarker hrest announced] at h
  cases h
  have few := announced.few
  obtain ⟨low, high⟩ := (announces_iff few).mp announced
  have again : 2 ^ (7 * (others.length + 1)) +
      (toNat .big (first :: others) - 2 ^ (7 * (others.length + 1))) =
      toNat .big (first :: others) := Nat.add_sub_of_le low
  refine ⟨toNat .big (first :: others) - 2 ^ (7 * (others.length + 1)), first, others,
    announced.pos, few, by omega, ?_, ?_, ?_, rfl, ?_, (toNat_wordOf keepMarker few).symm⟩
  · rw [← length_rest, hrest, List.length_append, List.length_cons]
    exact Nat.le_add_right _ _
  · rw [hrest]
    exact List.take_left' rfl
  · rw [encode, again]
    exact encode_toNat .big (first :: others)
  · rw [valueOf_eq keepMarker announced]
    cases keepMarker with
    | true => exact again.symm
    | false => rfl

theorem read_eq_error_iff {keepMarker : Bool} {e : Error} :
    read c keepMarker = .error e ↔ Refused c e := by
  refine ⟨fun h => ?_, read_of_refused keepMarker⟩
  obtain ⟨e', refused⟩ | ⟨first, others, after, hrest, announced⟩ := refused_or_front c
  · rw [read_of_refused keepMarker refused] at h
    cases h
    exact refused
  · rw [read_of_front keepMarker hrest announced] at h
    cases h

end Reads

/-! ### Records -/

theorem runVint_of_ok {s : State} {next : Cursor} {keepMarker : Bool} {value length : Nat}
    (id : String) (h : read s.cursor keepMarker = .ok (value, length, next)) :
    Action.runVint id keepMarker s = .ok () { s with
      cursor := next
      scopes := s.scopes.write id
        (.record [("value", .ofNat value), ("length", .int (Int64.ofNat length))]) } := by
  rw [Action.runVint, run_bind, Run.read_apply, h]
  rfl

theorem runVint_of_error {s : State} {keepMarker : Bool} {e : Error} (id : String)
    (h : read s.cursor keepMarker = .error e) :
    Action.runVint id keepMarker s = .error (.failed e) s := by
  rw [Action.runVint, run_bind, Run.read_apply, h]
  rfl

end Vint

open Vint

/-- A number behind its marker is read back as it is, or with the marker; a read that succeeds has
taken such a number, the one that words make of its bytes, and one that fails has `Refused` as the
reason. The record of a vint has an integer as its value, and where there is none the state stays as
it is. -/
theorem vints_read_back :
    (∀ (keepMarker : Bool) (length v : Nat) (front after : List UInt8) (order : ByteOrder),
      1 ≤ length → length ≤ 8 → v < 2 ^ (7 * length) →
      let c := behind front (encode length v ++ after) order
      read c keepMarker =
        .ok (if keepMarker then 2 ^ (7 * length) + v else v, length, c.advance length)) ∧
    (∀ (c next : Cursor) (keepMarker : Bool) (value length : Nat),
      read c keepMarker = .ok (value, length, next) →
      ∃ v first others, 1 ≤ length ∧ length ≤ 8 ∧ v < 2 ^ (7 * length) ∧ length ≤ c.remaining ∧
        c.rest.take length = first :: others ∧ encode length v = first :: others ∧
        next = c.advance length ∧ value = (if keepMarker then 2 ^ (7 * length) + v else v) ∧
        value = (wordOf keepMarker first others).toNat) ∧
    (∀ (c : Cursor) (keepMarker : Bool) (e : Error),
      read c keepMarker = .error e ↔ Refused c e) ∧
    ∀ (id : String) (keepMarker : Bool) (s : State),
      (∀ value length next, read s.cursor keepMarker = .ok (value, length, next) →
        ∃ n : Int64, n.toInt = value ∧ Action.runVint id keepMarker s = .ok () { s with
          cursor := next
          scopes := s.scopes.write id
            (.record [("value", .int n), ("length", .int (Int64.ofNat length))]) }) ∧
      ∀ e, read s.cursor keepMarker = .error e →
        Action.runVint id keepMarker s = .error (.failed e) s := by
  refine ⟨fun keepMarker length v front after order pos few h =>
      read_encode keepMarker pos few h (rest_behind _ _ _),
    fun c next keepMarker value length h => encode_of_read h,
    fun c keepMarker e => read_eq_error_iff, fun id keepMarker s => ⟨?_, fun e => runVint_of_error id⟩⟩
  intro value length next h
  obtain ⟨v, -, -, -, few, small, -, -, -, -, hvalue, -⟩ := encode_of_read h
  have room : 2 ^ (7 * length + 1) ≤ 2 ^ 57 := Nat.pow_le_pow_right (by decide) (by omega)
  rw [Nat.pow_succ] at room
  have fits : value < 0x8000000000000000 := by
    rw [hvalue]
    split <;> omega
  refine ⟨Int64.ofNat value, Int64.toInt_ofNat_of_lt fits, ?_⟩
  rw [← Value.ofNat_of_lt fits]
  exact runVint_of_ok id h

/-- Seven bytes follow a first one that is all marker; a number that ends too early is refused. -/
theorem vints_read_back_longest :
    let c := behind [9] (encode 8 0xfedcba98765432 ++ [7]) .little
    let d := behind [9] [0x10, 0x45, 0xdf] .little
    c.rest = [0x01, 0xfe, 0xdc, 0xba, 0x98, 0x76, 0x54, 0x32, 7] ∧
    read c false = .ok (0xfedcba98765432, 8, c.advance 8) ∧
    read c true = .ok (0x01fedcba98765432, 8, c.advance 8) ∧
    read d true = .error (.unexpectedEof 1 4 3) := by
  obtain ⟨encoded, -, refused, -⟩ := vints_read_back
  have announced : Announces 0x10 4 := ⟨by decide, by decide, by decide, by decide⟩
  exact ⟨by decide,
    encoded false 8 0xfedcba98765432 [9] [7] .little (by decide) (by decide) (by decide),
    encoded true 8 0xfedcba98765432 [9] [7] .little (by decide) (by decide) (by decide),
    (refused _ true _).mpr (.short rfl announced (by decide))⟩

end ByteSchema
