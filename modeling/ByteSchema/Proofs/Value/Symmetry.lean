import ByteSchema.Proofs.Value.Json
import ByteSchema.Proofs.Value.Record
import ByteSchema.Value.Number
import Mathlib

/-!
# Loose equality as a relation

Loose equality holds in both directions or in none, and of a value and itself unless there is a NaN
in it: `looseEq_symmetric`. Records are compared in one direction, each field on the left with the
one of its name on the right. That is enough since names are single: as many fields on the right
leave room for no other names there.
-/

namespace ByteSchema

namespace Binary64

theorem beq_symm {x y : Float} (h : (x == y) = true) : (y == x) = true := by
  rw [Float.beq_iff_ne_nan_and_eq] at h ⊢
  obtain ⟨hx, hy, rfl | ⟨rfl, rfl⟩ | ⟨rfl, rfl⟩⟩ := h
  · exact ⟨hy, hx, .inl rfl⟩
  · exact ⟨hy, hx, .inr (.inr ⟨rfl, rfl⟩)⟩
  · exact ⟨hy, hx, .inr (.inl ⟨rfl, rfl⟩)⟩

theorem beq_comm (x y : Float) : (x == y) = (y == x) :=
  Bool.eq_iff_iff.mpr ⟨beq_symm, beq_symm⟩

theorem beq_self {x : Float} (h : x.isNaN = false) : (x == x) = true := by
  rw [Float.isNaN_eq_decide_eq_nan, decide_eq_false_iff_not] at h
  exact Float.beq_self_iff.mpr h

end Binary64

namespace Value

mutual

def nanFree : Value → Bool
  | .float x => !x.isNaN
  | .list items => nanFreeItems items
  | .record fields => nanFreeFields fields
  | _ => true

def nanFreeItems : List Value → Bool
  | [] => true
  | v :: vs => nanFree v && nanFreeItems vs

def nanFreeFields : List (String × Value) → Bool
  | [] => true
  | (_, v) :: fields => nanFree v && nanFreeFields fields

end

/-! ### Records -/

theorem sameFields_iff {fields others : List (String × Value)} :
    sameFields fields others = true ↔
      ∀ field ∈ fields, ∃ v, others.lookup field.1 = some v ∧ same field.2 v = true := by
  induction fields with
  | nil => exact ⟨fun _ => List.forall_mem_nil _, fun _ => rfl⟩
  | cons field rest ih =>
    obtain ⟨name, value⟩ := field
    rw [sameFields, Bool.and_eq_true, ih, List.forall_mem_cons]
    cases others.lookup name <;> simp

theorem singleFields_iff {fields : List (String × Value)} :
    singleFields fields = true ↔ ∀ field ∈ fields, field.2.single = true := by
  induction fields with
  | nil => exact ⟨fun _ => List.forall_mem_nil _, fun _ => rfl⟩
  | cons field rest ih =>
    rw [singleFields, Bool.and_eq_true, ih, List.forall_mem_cons]

theorem single_record {fields : List (String × Value)} :
    (Value.record fields).single = true ↔
      (fields.map Prod.fst).Nodup ∧ ∀ field ∈ fields, field.2.single = true := by
  rw [single, Bool.and_eq_true, decide_eq_true_eq, singleFields_iff]

/-- The names on the left are on the right, and for as many fields these are all the names there. -/
theorem sameFields_turned {fields others : List (String × Value)}
    (names : (fields.map Prod.fst).Nodup) (names' : (others.map Prod.fst).Nodup)
    (length : fields.length = others.length)
    (comm : ∀ field ∈ fields, ∀ other ∈ others, same field.2 other.2 = same other.2 field.2)
    (h : sameFields fields others = true) : sameFields others fields = true := by
  rw [sameFields_iff] at h ⊢
  have within : fields.map Prod.fst ⊆ others.map Prod.fst := by
    intro name hname
    obtain ⟨field, hfield, rfl⟩ := List.mem_map.mp hname
    obtain ⟨v, found, -⟩ := h field hfield
    exact List.mem_map.mpr ⟨_, Table.mem_of_lookup found, rfl⟩
  have counted : (others.map Prod.fst).length ≤ (fields.map Prod.fst).length := by
    simp [length]
  have all := (names.subperm within).perm_of_length_le counted
  intro other hother
  obtain ⟨field, hfield, name⟩ := List.mem_map.mp (all.mem_iff.mpr (List.mem_map_of_mem hother))
  obtain ⟨v, found, equal⟩ := h field hfield
  have met : v = other.2 := by
    rw [name, Table.lookup_of_mem names' hother] at found
    exact (Option.some.inj found).symm
  refine ⟨field.2, ?_, ?_⟩
  · rw [← name]
    exact Table.lookup_of_mem names hfield
  · rw [← comm field hfield other hother, ← met]
    exact equal

theorem same_record_comm {fields others : List (String × Value)}
    (names : (fields.map Prod.fst).Nodup) (names' : (others.map Prod.fst).Nodup)
    (comm : ∀ field ∈ fields, ∀ other ∈ others, same field.2 other.2 = same other.2 field.2) :
    same (.record fields) (.record others) = same (.record others) (.record fields) := by
  rw [same, same, Bool.eq_iff_iff, Bool.and_eq_true, Bool.and_eq_true, beq_iff_eq, beq_iff_eq]
  constructor
  · rintro ⟨length, h⟩
    exact ⟨length.symm, sameFields_turned names names' length comm h⟩
  · rintro ⟨length, h⟩
    have comm' other (hother : other ∈ others) field (hfield : field ∈ fields) :=
      (comm field hfield other hother).symm
    exact ⟨length.symm, sameFields_turned names' names length comm' h⟩

theorem same_record_self {fields : List (String × Value)} (names : (fields.map Prod.fst).Nodup)
    (self : ∀ field ∈ fields, same field.2 field.2 = true) :
    same (.record fields) (.record fields) = true := by
  rw [same, Bool.and_eq_true, beq_iff_eq, sameFields_iff]
  exact ⟨rfl, fun field hfield => ⟨field.2, Table.lookup_of_mem names hfield, self field hfield⟩⟩

theorem same_record_perm {fields others : List (String × Value)} (h : fields.Perm others)
    (v : Value) : same (.record fields) v = same (.record others) v := by
  cases v with
  | record members =>
    rw [same, same, h.length_eq, Bool.eq_iff_iff, Bool.and_eq_true, Bool.and_eq_true,
      sameFields_iff, sameFields_iff]
    simp only [h.mem_iff]
  | _ => rfl

/-! ### Equality of structure -/

mutual

theorem same_comm : ∀ a b : Value, a.single = true → b.single = true → same a b = same b a
  | .undefined, b, _, _ => by cases b <;> rfl
  | .bool m, b, _, _ => by
    cases b with
    | bool n => exact Bool.beq_comm
    | _ => rfl
  | .int m, b, _, _ => by
    cases b with
    | int n => exact BEq.comm
    | _ => rfl
  | .float x, b, _, _ => by
    cases b with
    | float y => exact Binary64.beq_comm x y
    | _ => rfl
  | .text s, b, _, _ => by
    cases b with
    | text t => exact BEq.comm
    | _ => rfl
  | .bytes m, b, _, _ => by
    cases b with
    | bytes n => exact BEq.comm
    | _ => rfl
  | .list items, b, h, h' => by
    cases b with
    | list others => exact sameItems_comm items others h h'
    | _ => rfl
  | .record fields, b, h, h' => by
    cases b with
    | record others =>
      obtain ⟨names, h⟩ := Bool.and_eq_true_iff.mp h
      obtain ⟨names', values'⟩ := single_record.mp h'
      refine same_record_comm (of_decide_eq_true names) names' fun field hfield other hother => ?_
      exact same_comm_of_mem fields h field hfield other.2 (values' other hother)
    | _ => rfl

theorem sameItems_comm : ∀ items others : List Value, singleItems items = true →
    singleItems others = true → sameItems items others = sameItems others items
  | [], others, _, _ => by cases others <;> rfl
  | v :: vs, [], _, _ => rfl
  | v :: vs, w :: ws, h, h' => by
    obtain ⟨first, rest⟩ := Bool.and_eq_true_iff.mp h
    obtain ⟨first', rest'⟩ := Bool.and_eq_true_iff.mp h'
    rw [sameItems, sameItems, same_comm v w first first', sameItems_comm vs ws rest rest']

theorem same_comm_of_mem : ∀ fields : List (String × Value), singleFields fields = true →
    ∀ field ∈ fields, ∀ b : Value, b.single = true → same field.2 b = same b field.2
  | (_, v) :: rest, h, field, hfield, b, hb => by
    obtain ⟨first, h⟩ := Bool.and_eq_true_iff.mp h
    obtain rfl | later := List.mem_cons.mp hfield
    · exact same_comm v b first hb
    · exact same_comm_of_mem rest h field later b hb

end

mutual

theorem same_self : ∀ v : Value, v.single = true → v.nanFree = true → same v v = true
  | .undefined, _, _ => rfl
  | .bool b, _, _ => BEq.rfl
  | .int n, _, _ => BEq.rfl
  | .float x, _, h => Binary64.beq_self ((Bool.not_eq_true' _).mp h)
  | .text s, _, _ => BEq.rfl
  | .bytes data, _, _ => BEq.rfl
  | .list items, h, h' => sameItems_self items h h'
  | .record fields, h, h' => by
    obtain ⟨names, h⟩ := Bool.and_eq_true_iff.mp h
    exact same_record_self (of_decide_eq_true names) (same_self_of_mem fields h h')

theorem sameItems_self : ∀ items : List Value, singleItems items = true →
    nanFreeItems items = true → sameItems items items = true
  | [], _, _ => rfl
  | v :: vs, h, h' => by
    obtain ⟨first, rest⟩ := Bool.and_eq_true_iff.mp h
    obtain ⟨first', rest'⟩ := Bool.and_eq_true_iff.mp h'
    rw [sameItems, same_self v first first', sameItems_self vs rest rest']
    rfl

theorem same_self_of_mem : ∀ fields : List (String × Value), singleFields fields = true →
    nanFreeFields fields = true → ∀ field ∈ fields, same field.2 field.2 = true
  | (_, v) :: rest, h, h', field, hfield => by
    obtain ⟨first, h⟩ := Bool.and_eq_true_iff.mp h
    obtain ⟨first', h'⟩ := Bool.and_eq_true_iff.mp h'
    obtain rfl | later := List.mem_cons.mp hfield
    · exact same_self v first first'
    · exact same_self_of_mem rest h h' field later

end

/-! ### Loose equality -/

theorem numericEq_comm (a b : Value) : numericEq a b = numericEq b a := by
  unfold numericEq
  cases a.toFloat with
  | error e => cases b.toFloat <;> rfl
  | ok x =>
    cases b.toFloat with
    | error e => rfl
    | ok y => exact Binary64.beq_comm x y

/-- A number, a boolean or a text. -/
def isScalar : Value → Bool
  | .bool _ | .int _ | .float _ | .text _ => true
  | _ => false

/-- Integers and texts among themselves are not read as doubles, and no more are booleans and
numbers against what is no scalar. -/
def coerced : Value → Value → Bool
  | .int _, .int _ | .text _, .text _ => false
  | a, b => a.isScalar && b.isScalar

theorem coerced_comm (a b : Value) : coerced a b = coerced b a := by
  cases a <;> cases b <;> rfl

theorem looseEq_eq (a b : Value) :
    a.looseEq b = if coerced a b then numericEq a b else same a b := by
  cases a <;> cases b <;> rfl

theorem looseEq_comm {a b : Value} (h : a.single = true) (h' : b.single = true) :
    a.looseEq b = b.looseEq a := by
  rw [looseEq_eq, looseEq_eq, coerced_comm, numericEq_comm, same_comm a b h h']

theorem looseEq_self {v : Value} (h : v.single = true) (h' : v.nanFree = true) :
    v.looseEq v = true := by
  cases v with
  | bool b => cases b <;> rfl
  | float x => exact Binary64.beq_self ((Bool.not_eq_true' _).mp h')
  | _ => exact same_self _ h h'

theorem looseEq_record (fields : List (String × Value)) (v : Value) :
    (Value.record fields).looseEq v = same (.record fields) v := by
  cases v <;> rfl

end Value

/-- Where names are single in records, it does not matter which of two values stands on the left,
and each equals itself if there is no NaN in it, at any depth. Nor does the order of the fields of a
record count. -/
theorem looseEq_symmetric :
    (∀ a b : Value, a.single = true → b.single = true → a.looseEq b = b.looseEq a) ∧
    (∀ v : Value, v.single = true → v.nanFree = true → v.looseEq v = true) ∧
    ∀ (fields others : Record) (v : Value), fields.Perm others →
      (Value.record fields).looseEq v = (Value.record others).looseEq v := by
  refine ⟨fun a b => Value.looseEq_comm, fun v => Value.looseEq_self, fun fields others v h => ?_⟩
  rw [Value.looseEq_record, Value.looseEq_record]
  exact Value.same_record_perm h v

namespace ValueSample

def crop : Record := [("x", .float 1.5), ("y", .list [.text "7", .undefined])]

def cropAgain : Record := [("y", .list [.text "7", .undefined]), ("x", .float 1.5)]

end ValueSample

open ValueSample in
theorem looseEq_symmetric_crop :
    (Value.record crop).looseEq (.record cropAgain) = true ∧
    (Value.record cropAgain).looseEq (.record crop) = true ∧
    (Value.text "0x1").looseEq (.bool true) = true ∧
    (Value.bool true).looseEq (.text "0x1") = true := by
  obtain ⟨comm, self, perm⟩ := looseEq_symmetric
  have again : (Value.record crop).looseEq (.record cropAgain) = true := by
    rw [perm crop cropAgain _ (.swap _ _ _)]
    exact self (.record cropAgain) (by decide) (by decide)
  have spelt : (Value.text "0x1").looseEq (.bool true) = true := by decide +kernel
  refine ⟨again, ?_, spelt, ?_⟩
  · rw [comm _ _ (by decide) (by decide)]
    exact again
  · rw [comm _ _ (by decide) (by decide)]
    exact spelt

end ByteSchema
