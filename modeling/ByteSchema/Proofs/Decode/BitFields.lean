import Mathlib.Algebra.Order.Ring.Nat
import ByteSchema.Proofs.Decode.Confined

/-!
# The fields of a byte

Entries take the bits of a byte from the top. `bits_unpacked` says which entries fit and what their
fields hold, that the bits put back give the byte, and that the record of the fields and the fields
in the target agree.
-/

namespace ByteSchema

namespace BitField

def width (entries : List BitField) : Nat := (entries.map fun e => e.bits.toNat).sum

/-- No entry is empty, and all of them together take no more than `left` bits. -/
def Fits (left : Nat) (entries : List BitField) : Prop :=
  (∀ e ∈ entries, 1 ≤ e.bits.toNat) ∧ width entries ≤ left

instance (left : Nat) (entries : List BitField) : Decidable (Fits left entries) :=
  inferInstanceAs (Decidable (_ ∧ _))

/-- The entries, each with the bits that are taken before it. -/
def placed (taken : Nat) : List BitField → List (Nat × BitField)
  | [] => []
  | e :: rest => (taken, e) :: placed (taken + e.bits.toNat) rest

/-- The number in the `bits` bits behind the first `taken` bits of a byte. -/
def raw (byte : UInt8) (taken bits : Nat) : Nat := byte.toNat / 2 ^ (8 - taken - bits) % 2 ^ bits

/-- The fields of the named entries. -/
def fields (byte : UInt8) (placed : List (Nat × BitField)) : List (String × Value) :=
  placed.filterMap fun (taken, e) =>
    e.id.map fun id => (id, value e.kind (raw byte taken e.bits.toNat))

/-- The bits of the entries, put back to where they were. -/
def joined (byte : UInt8) (placed : List (Nat × BitField)) : Nat :=
  (placed.map fun (taken, e) =>
    raw byte taken e.bits.toNat * 2 ^ (8 - taken - e.bits.toNat)).sum

variable {byte : UInt8} {left taken : Nat} {e : BitField} {entries rest : List BitField}

theorem fits_cons : Fits left (e :: rest) ↔
    (1 ≤ e.bits.toNat ∧ e.bits.toNat ≤ left) ∧ Fits (left - e.bits.toNat) rest := by
  simp only [Fits, width, List.forall_mem_cons, List.map_cons, List.sum_cons]
  constructor
  · rintro ⟨⟨pos, others⟩, whole⟩
    exact ⟨⟨pos, by omega⟩, others, by omega⟩
  · rintro ⟨⟨pos, first⟩, others, whole⟩
    exact ⟨⟨pos, others⟩, by omega⟩

theorem toInt_raw (byte : UInt8) (taken bits : Nat) :
    (Int64.ofNat (raw byte taken bits)).toInt = raw byte taken bits := by
  have small : raw byte taken bits ≤ byte.toNat :=
    Nat.le_trans (Nat.mod_le _ _) (Nat.div_le_self _ _)
  have low := byte.toNat_lt
  exact Int64.toInt_ofNat_of_lt (by omega)

/-! ### Unpacking -/

theorem unpack_cons (whole : taken + left = 8) (pos : 1 ≤ e.bits.toNat)
    (first : e.bits.toNat ≤ left) : unpack byte left (e :: rest) =
      (unpack byte (left - e.bits.toNat) rest).map (fields byte [(taken, e)] ++ ·) := by
  have bits : byte.toNat >>> (left - e.bits.toNat) % 1 <<< e.bits.toNat =
      raw byte taken e.bits.toNat := by
    rw [Nat.shiftRight_eq_div_pow, Nat.shiftLeft_eq, Nat.one_mul, raw]
    congr 3
    omega
  have enough : ¬ (e.bits.toNat = 0 ∨ left < e.bits.toNat) := by omega
  simp only [unpack, if_neg enough, bits]
  cases unpack byte (left - e.bits.toNat) rest with
  | error fault => rfl
  | ok later => cases named : e.id <;> simp [fields, named] <;> rfl

theorem unpack_of_fits (whole : taken + left = 8) (h : Fits left entries) :
    unpack byte left entries = .ok (fields byte (placed taken entries)) := by
  induction entries generalizing taken left with
  | nil => rfl
  | cons e rest ih =>
    obtain ⟨⟨pos, first⟩, others⟩ := fits_cons.mp h
    have next : taken + e.bits.toNat + (left - e.bits.toNat) = 8 := by omega
    rw [unpack_cons whole pos first, ih next others]
    exact congrArg Except.ok (List.filterMap_append (l := [(taken, e)])).symm

/-- The first entry that does not fit behind those before it is named by the error. -/
theorem unpack_of_misfit (whole : taken + left = 8) (h : ¬ Fits left entries) :
    ∃ before e after, entries = before ++ e :: after ∧ Fits left before ∧
      (e.bits.toNat = 0 ∨ left < width before + e.bits.toNat) ∧
      unpack byte left entries =
        .error (.invalidSchema (.bitWidth e.bits.toNat (left - width before))) := by
  induction entries generalizing taken left with
  | nil => exact absurd ⟨List.forall_mem_nil _, Nat.zero_le _⟩ h
  | cons e rest ih =>
    by_cases first : 1 ≤ e.bits.toNat ∧ e.bits.toNat ≤ left
    · have others : ¬ Fits (left - e.bits.toNat) rest := fun others =>
        h (fits_cons.mpr ⟨first, others⟩)
      have next : taken + e.bits.toNat + (left - e.bits.toNat) = 8 := by omega
      obtain ⟨before, e', after, rfl, fits, misfit, refused⟩ := ih next others
      have sum : width (e :: before) = e.bits.toNat + width before := rfl
      refine ⟨e :: before, e', after, rfl, fits_cons.mpr ⟨first, fits⟩, by omega, ?_⟩
      rw [unpack_cons whole first.1 first.2, refused, sum, Nat.sub_add_eq]
      rfl
    · have misfit : e.bits.toNat = 0 ∨ left < e.bits.toNat := by omega
      refine ⟨[], e, rest, rfl, ⟨List.forall_mem_nil _, Nat.zero_le _⟩, ?_, ?_⟩
      · simpa [width] using misfit
      · simp only [unpack, if_pos misfit]
        rfl

theorem fits_of_unpack {found : List (String × Value)} (h : unpack byte 8 entries = .ok found) :
    Fits 8 entries := by
  by_contra misfit
  obtain ⟨_, _, _, -, -, -, refused⟩ := @unpack_of_misfit byte _ _ _ (Nat.zero_add 8) misfit
  rw [h] at refused
  cases refused

/-- The record of the fields comes before what the target had. -/
theorem get?_promoted (r : Record) (id : String) (found : List (String × Value)) (name : String) :
    ((r.insert id (.record (Record.ofList found))).merge found).get? name =
      ((Record.ofList found).get? name).or
        ((r.insert id (.record (Record.ofList found))).get? name) := by
  rw [Record.get?_merge_reverse, Record.get?_ofList]

theorem get?_promoted_of_notMem (r : Record) (id : String) {found : List (String × Value)}
    {name : String} (h : name ∉ found.map Prod.fst) :
    ((r.insert id (.record (Record.ofList found))).merge found).get? name =
      (r.insert id (.record (Record.ofList found))).get? name := by
  have absent : (Record.ofList found).get? name = none := by
    simpa using mt Record.isSome_get?_ofList.mp h
  rw [get?_promoted, absent, Option.none_or]

/-! ### Joining -/

theorem raw_mul (whole : taken + left = 8) {bits : Nat} (h : bits ≤ left) :
    raw byte taken bits * 2 ^ (8 - taken - bits) + byte.toNat % 2 ^ (left - bits) =
      byte.toNat % 2 ^ left := by
  have place : 8 - taken - bits = left - bits := by omega
  have power : 2 ^ left = 2 ^ (left - bits) * 2 ^ bits := by
    rw [← Nat.pow_add, Nat.sub_add_cancel h]
  rw [raw, place, power, Nat.mod_mul, Nat.add_comm, Nat.mul_comm]

theorem joined_add (whole : taken + left = 8) (h : Fits left entries) :
    joined byte (placed taken entries) + byte.toNat % 2 ^ (left - width entries) =
      byte.toNat % 2 ^ left := by
  induction entries generalizing taken left with
  | nil => simp [joined, placed, width]
  | cons e rest ih =>
    obtain ⟨⟨pos, first⟩, others⟩ := fits_cons.mp h
    have next : taken + e.bits.toNat + (left - e.bits.toNat) = 8 := by omega
    have later := ih next others
    have place : left - width (e :: rest) = left - e.bits.toNat - width rest := Nat.sub_add_eq ..
    have sum : joined byte (placed taken (e :: rest)) =
        raw byte taken e.bits.toNat * 2 ^ (8 - taken - e.bits.toNat) +
          joined byte (placed (taken + e.bits.toNat) rest) := rfl
    rw [place, sum, Nat.add_assoc, later, raw_mul whole first]

end BitField

/-! ### The node -/

open BitField

namespace Action

variable {setting : Setting} {s : State} {byte : UInt8} {entries : List BitField}

theorem bitfield_of_error {e : Error} (id : Option String) (front : s.cursor.peek? = some byte)
    (h : unpack byte 8 entries = .error e) : (Action.bitfield id entries).run setting s =
      .error (.failed e) { s with cursor := s.cursor.advance 1 } := by
  rw [run, runBits, run_bind, Run.read_apply, Cursor.readByte, front]
  dsimp only
  rw [run_bind, h]
  rfl

theorem bitfield_of_ok {found : List (String × Value)} (id : String)
    (front : s.cursor.peek? = some byte) (h : unpack byte 8 entries = .ok found) :
    (Action.bitfield (some id) entries).run setting s = .ok () { s with
      cursor := s.cursor.advance 1
      scopes := s.scopes.mapTarget fun r =>
        (r.insert id (.record (Record.ofList found))).merge found } := by
  have both := s.scopes.mapTarget_mapTarget
    (fun r => r.insert id (.record (Record.ofList found))) (fun r => r.merge found)
  rw [run, runBits, run_bind, Run.read_apply, Cursor.readByte, front]
  dsimp only
  rw [run_bind, h, ← both]
  rfl

end Action

/-- Entries fit exactly if none is empty and all together take at most eight bits; else the error is
about the first that does not. Fields that fit hold the bits behind those of the entries before
them, so that all bits together are the byte. With a name of its own the node writes one record of
the fields and the fields themselves: a name that several fields have stands for the last of them in
the record, and for the same in the target. -/
theorem bits_unpacked (byte : UInt8) (entries : List BitField) :
    ((∃ found, unpack byte 8 entries = .ok found) ↔
      (∀ e ∈ entries, 1 ≤ e.bits.toNat) ∧ width entries ≤ 8) ∧
    (¬ Fits 8 entries → ∃ before e after, entries = before ++ e :: after ∧ Fits 8 before ∧
      (e.bits.toNat = 0 ∨ 8 < width before + e.bits.toNat) ∧ unpack byte 8 entries =
        .error (.invalidSchema (.bitWidth e.bits.toNat (8 - width before)))) ∧
    (∀ found, unpack byte 8 entries = .ok found →
      found = fields byte (placed 0 entries) ∧
      joined byte (placed 0 entries) + byte.toNat % 2 ^ (8 - width entries) = byte.toNat) ∧
    (∀ taken bits, (Int64.ofNat (raw byte taken bits)).toInt = raw byte taken bits) ∧
    ∀ (setting : Setting) (id : String) (s : State), s.cursor.peek? = some byte →
      (∀ e, unpack byte 8 entries = .error e → (Action.bitfield (some id) entries).run setting s =
        .error (.failed e) { s with cursor := s.cursor.advance 1 }) ∧
      ∀ found, unpack byte 8 entries = .ok found →
        let nested : Record := Record.ofList found
        ∃ t, (Action.bitfield (some id) entries).run setting s = .ok () t ∧
        t = { s with
          cursor := s.cursor.advance 1
          scopes := s.scopes.mapTarget fun r => (r.insert id (.record nested)).merge found } ∧
        (∀ name, (nested.get? name).isSome ↔ name ∈ found.map Prod.fst) ∧
        (∀ name ∈ found.map Prod.fst, t.scopes.target.get? name = nested.get? name) ∧
        (id ∉ found.map Prod.fst → t.scopes.target.get? id = some (.record nested)) ∧
        ∀ name ≠ id, name ∉ found.map Prod.fst →
          t.scopes.target.get? name = s.scopes.target.get? name := by
  have unpacked (h : Fits 8 entries) :
      unpack byte 8 entries = .ok (fields byte (placed 0 entries)) :=
    unpack_of_fits (Nat.zero_add 8) h
  refine ⟨⟨?_, fun h => ⟨_, unpacked h⟩⟩, unpack_of_misfit (Nat.zero_add 8),
    fun found h => ⟨?_, ?_⟩, toInt_raw byte, fun setting id s front => ⟨?_, ?_⟩⟩
  · rintro ⟨found, h⟩
    exact fits_of_unpack h
  · exact Except.ok.inj (h.symm.trans (unpacked (fits_of_unpack h)))
  · have joined := @joined_add byte _ _ _ (Nat.zero_add 8) (fits_of_unpack h)
    rwa [Nat.mod_eq_of_lt byte.toNat_lt] at joined
  · exact fun e h => Action.bitfield_of_error (some id) front h
  · intro found h
    refine ⟨_, Action.bitfield_of_ok id front h, rfl,
      fun name => Record.isSome_get?_ofList, fun name named => ?_, fun unnamed => ?_,
      fun name other unnamed => ?_⟩
    · rw [Scopes.target_mapTarget, get?_promoted,
        Option.or_of_isSome (Record.isSome_get?_ofList.mpr named)]
    · rw [Scopes.target_mapTarget, get?_promoted_of_notMem _ _ unnamed, Record.get?_insert_self]
    · rw [Scopes.target_mapTarget, get?_promoted_of_notMem _ _ unnamed,
        Record.get?_insert_of_ne _ _ _ other]

namespace DecodeSample

/-- A name twice, padding between them, and a bit left over. -/
def entries : List BitField :=
  [⟨some "a", .uint, 3⟩, ⟨none, .uint, 1⟩, ⟨some "a", .boolean, 1⟩, ⟨some "b", .uint, 2⟩]

def flagged : Setting where
  schema := {
    byteOrder := .big
    templates := []
    spec := [.action (.bitfield (some "flags") entries)] }
  config := .default
  functions := []

def flags : State where
  cursor := .start [0xb3] .big
  scopes := .empty
  regions := []
  depth := 1
  log := []

end DecodeSample

open DecodeSample in
/-- The second `a` hides the first one in both places. Two bits more are one too many. -/
theorem bits_unpacked_repeated :
    joined 0xb3 (placed 0 entries) + 1 = 0xb3 ∧
    (∃ t, (Action.bitfield (some "flags") entries).run flagged flags = .ok () t ∧
      t.scopes.target.get? "a" = some (.bool false) ∧
      t.scopes.target.get? "flags" = some (.record [("a", .bool false), ("b", .int 1)])) ∧
    ∃ bits left, unpack 0xb3 8 (entries ++ [⟨none, .uint, 2⟩]) =
      .error (.invalidSchema (.bitWidth bits left)) := by
  have unpacked :
      unpack 0xb3 8 entries = .ok [("a", .int 5), ("a", .bool false), ("b", .int 1)] := rfl
  obtain ⟨-, -, whole, -, node⟩ := bits_unpacked 0xb3 entries
  obtain ⟨t, ran, -, -, promoted, nested, -⟩ := (node flagged "flags" flags rfl).2 _ unpacked
  obtain ⟨-, misfit, -⟩ := bits_unpacked 0xb3 (entries ++ [⟨none, .uint, 2⟩])
  obtain ⟨_, e, _, -, -, -, refused⟩ := misfit (by decide)
  refine ⟨(whole _ unpacked).2, ⟨t, ran, ?_, nested (by decide)⟩, _, _, refused⟩
  exact promoted "a" (by decide)

end ByteSchema
