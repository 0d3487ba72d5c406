import ByteSchema.Proofs.Json.Printing
import ByteSchema.Proofs.Json.Reading
import ByteSchema.Value.Json

/-!
# Values as JSON texts

The printed texts of a value without doubles are texts of one tree, and reading them gives it back:
`json_faithful`. The tree is that of `Depicts`, which loses nothing of the value but whether a list
of numbers from 0 to 255 was one of bytes.
-/

namespace ByteSchema

namespace Json

/-- The number as an integer, if it is one. -/
def Number.toInt? : Number → Option Int
  | .natural n => some n.toNat
  | .negative n => some n.toInt
  | .float _ => none

def toInt? : Json → Option Int
  | .number n => n.toInt?
  | _ => none

end Json

namespace Value

/-! ### What a tree says of a value -/

mutual

inductive Depicts : Value → Json → Prop
  | undefined : Depicts .undefined .null
  | bool (b : Bool) : Depicts (.bool b) (.bool b)
  | int {n : Int64} {k : Json.Number} : k.toInt? = some n.toInt → Depicts (.int n) (.number k)
  | text (s : String) : Depicts (.text s) (.text s)
  | bytes {data : List UInt8} {items : List Json} :
      items.map Json.toInt? = data.map (fun b => some (b.toNat : Int)) →
      Depicts (.bytes data) (.list items)
  | list {values : List Value} {items : List Json} : DepictsItems values items →
      Depicts (.list values) (.list items)
  | record {fields : List (String × Value)} {members : List (String × Json)} :
      (members.map Prod.fst).Nodup → DepictsFields fields members →
      Depicts (.record fields) (.object members)

inductive DepictsItems : List Value → List Json → Prop
  | nil : DepictsItems [] []
  | cons {v : Value} {j : Json} {values : List Value} {items : List Json} : Depicts v j →
      DepictsItems values items → DepictsItems (v :: values) (j :: items)

/-- The same names in the same order. -/
inductive DepictsFields : List (String × Value) → List (String × Json) → Prop
  | nil : DepictsFields [] []
  | cons (name : String) {v : Value} {j : Json} {fields : List (String × Value)}
      {members : List (String × Json)} : Depicts v j → DepictsFields fields members →
      DepictsFields ((name, v) :: fields) ((name, j) :: members)

end

/-- The list of the bytes as integers. -/
def ofBytes (data : List UInt8) : Value := .list (data.map fun b => .int (Int64.ofNat b.toNat))

mutual

/-- The same but for bytes that stand against a list of integers. -/
inductive Alike : Value → Value → Prop
  | refl (v : Value) : Alike v v
  | bytes (data : List UInt8) : Alike (.bytes data) (ofBytes data)
  | unbytes (data : List UInt8) : Alike (ofBytes data) (.bytes data)
  | list {vs ws : List Value} : AlikeItems vs ws → Alike (.list vs) (.list ws)
  | record {fs gs : List (String × Value)} : AlikeFields fs gs → Alike (.record fs) (.record gs)

inductive AlikeItems : List Value → List Value → Prop
  | nil : AlikeItems [] []
  | cons {v w : Value} {vs ws : List Value} : Alike v w → AlikeItems vs ws →
      AlikeItems (v :: vs) (w :: ws)

inductive AlikeFields : List (String × Value) → List (String × Value) → Prop
  | nil : AlikeFields [] []
  | cons (name : String) {v w : Value} {fs gs : List (String × Value)} : Alike v w →
      AlikeFields fs gs → AlikeFields ((name, v) :: fs) ((name, w) :: gs)

end

/-! ### Values without doubles -/

mutual

def floatless : Value → Bool
  | .float _ => false
  | .list items => floatlessItems items
  | .record fields => floatlessFields fields
  | _ => true

def floatlessItems : List Value → Bool
  | [] => true
  | v :: vs => floatless v && floatlessItems vs

def floatlessFields : List (String × Value) → Bool
  | [] => true
  | (_, v) :: fields => floatless v && floatlessFields fields

end

mutual

/-- In every record each name is there once. -/
def single : Value → Bool
  | .list items => singleItems items
  | .record fields => decide (fields.map Prod.fst).Nodup && singleFields fields
  | _ => true

def singleItems : List Value → Bool
  | [] => true
  | v :: vs => single v && singleItems vs

def singleFields : List (String × Value) → Bool
  | [] => true
  | (_, v) :: fields => single v && singleFields fields

end

/-! ### The tree of a value -/

theorem toInt?_ofInt64 (n : Int64) :
    ∃ k : Json.Number, Json.ofInt64 n = .number k ∧ k.whole = true ∧ k.toInt? = some n.toInt := by
  unfold Json.ofInt64
  split
  · next nonneg =>
    refine ⟨.natural n.toUInt64, rfl, rfl, ?_⟩
    have value : (n.toInt.toNat : Int) = n.toInt :=
      Int.toNat_of_nonneg (Int64.le_iff_toInt_le.mp nonneg)
    have size : n.toUInt64.toNat = n.toInt.toNat := Int64.toNat_toUInt64_of_le nonneg
    rw [Json.Number.toInt?, size, value]
  · next negative => exact ⟨.negative n, rfl, decide_eq_true (Int64.not_le.mp negative), rfl⟩

theorem toInt?_ofNat (b : UInt8) : (Json.ofNat b.toNat).toInt? = some (b.toNat : Int) := by
  have size : (UInt64.ofNat b.toNat).toNat = b.toNat :=
    UInt64.toNat_ofNat_of_lt' (Nat.lt_trans b.toNat_lt (by decide))
  show some ((UInt64.ofNat b.toNat).toNat : Int) = _
  rw [size]

theorem keys_fieldsToJson (fields : List (String × Value)) :
    (fieldsToJson fields).map Prod.fst = fields.map Prod.fst := by
  induction fields with
  | nil => rfl
  | cons field rest ih => exact congrArg (field.1 :: ·) ih

mutual

theorem depicts_toJson : ∀ v : Value, v.floatless = true → v.single = true →
    Depicts v v.toJson
  | .undefined, _, _ => .undefined
  | .bool b, _, _ => .bool b
  | .int n, _, _ => by
    obtain ⟨k, number, -, value⟩ := toInt?_ofInt64 n
    rw [toJson, number]
    exact .int value
  | .float _, h, _ => by cases h
  | .text s, _, _ => .text s
  | .bytes data, _, _ => by
    rw [toJson]
    refine .bytes ?_
    rw [List.map_map]
    exact List.map_congr_left fun b _ => toInt?_ofNat b
  | .list items, h, h' => .list (depicts_itemsToJson items h h')
  | .record fields, h, h' => by
    obtain ⟨names, values⟩ := Bool.and_eq_true_iff.mp h'
    refine .record ?_ (depicts_fieldsToJson fields h values)
    rw [keys_fieldsToJson]
    exact of_decide_eq_true names

theorem depicts_itemsToJson : ∀ items : List Value, floatlessItems items = true →
    singleItems items = true → DepictsItems items (itemsToJson items)
  | [], _, _ => .nil
  | v :: vs, h, h' => by
    obtain ⟨first, rest⟩ := Bool.and_eq_true_iff.mp h
    obtain ⟨first', rest'⟩ := Bool.and_eq_true_iff.mp h'
    exact .cons (depicts_toJson v first first') (depicts_itemsToJson vs rest rest')

theorem depicts_fieldsToJson : ∀ fields : List (String × Value), floatlessFields fields = true →
    singleFields fields = true → DepictsFields fields (fieldsToJson fields)
  | [], _, _ => .nil
  | (name, v) :: fields, h, h' => by
    obtain ⟨first, rest⟩ := Bool.and_eq_true_iff.mp h
    obtain ⟨first', rest'⟩ := Bool.and_eq_true_iff.mp h'
    exact .cons name (depicts_toJson v first first') (depicts_fieldsToJson fields rest rest')

end

mutual

theorem whole_toJson : ∀ v : Value, v.floatless = true → v.toJson.whole = true
  | .undefined, _ => rfl
  | .bool _, _ => rfl
  | .int n, _ => by
    obtain ⟨k, number, whole, -⟩ := toInt?_ofInt64 n
    rw [toJson, number]
    exact whole
  | .float _, h => by cases h
  | .text _, _ => rfl
  | .bytes data, _ => by
    rw [toJson, Json.whole]
    induction data with
    | nil => rfl
    | cons b rest ih => exact ih rfl
  | .list items, h => whole_itemsToJson items h
  | .record fields, h => whole_fieldsToJson fields h

theorem whole_itemsToJson : ∀ items : List Value, floatlessItems items = true →
    Json.wholeItems (itemsToJson items) = true
  | [], _ => rfl
  | v :: vs, h => by
    obtain ⟨first, rest⟩ := Bool.and_eq_true_iff.mp h
    exact Bool.and_eq_true_iff.mpr ⟨whole_toJson v first, whole_itemsToJson vs rest⟩

theorem whole_fieldsToJson : ∀ fields : List (String × Value), floatlessFields fields = true →
    Json.wholeMembers (fieldsToJson fields) = true
  | [], _ => rfl
  | (_, v) :: fields, h => by
    obtain ⟨first, rest⟩ := Bool.and_eq_true_iff.mp h
    exact Bool.and_eq_true_iff.mpr ⟨whole_toJson v first, whole_fieldsToJson fields rest⟩

end

/-! ### Values with the same tree -/

theorem eq_ofBytes {values : List Value} {items : List Json} {data : List UInt8}
    (h : DepictsItems values items)
    (bytes : items.map Json.toInt? = data.map fun b => some (b.toNat : Int)) :
    .list values = ofBytes data := by
  refine congrArg Value.list ?_
  induction values generalizing items data with
  | nil =>
    cases h
    rw [List.map_eq_nil_iff.mp bytes.symm]
    rfl
  | cons v rest ih =>
    cases h with
    | cons first others =>
      cases data with
      | nil => cases bytes
      | cons b data =>
        obtain ⟨number, numbers⟩ := List.cons.inj bytes
        cases first with
        | @int n k value =>
          have word : n.toInt = b.toNat := Option.some.inj (value.symm.trans number)
          have small : b.toNat < 0x8000000000000000 := Nat.lt_trans b.toNat_lt (by decide)
          have same : n = Int64.ofNat b.toNat := by
            rw [← Int64.toInt_inj, word]
            exact (Int64.toInt_ofNat_of_lt small).symm
          rw [same, ih others numbers]
          rfl
        | _ => cases number

theorem bytes_inj {items : List Json} {data data' : List UInt8}
    (h : items.map Json.toInt? = data.map fun b => some (b.toNat : Int))
    (h' : items.map Json.toInt? = data'.map fun b => some (b.toNat : Int)) : data = data' := by
  refine (List.map_inj_right fun b b' same => ?_).mp (h.symm.trans h')
  exact UInt8.toNat_inj.mp (Int.ofNat.inj (Option.some.inj same))

mutual

theorem alike_of_depicts : ∀ (v w : Value) (j : Json), Depicts v j → Depicts w j → Alike v w
  | .undefined, _, _, .undefined, .undefined => .refl _
  | .bool b, _, _, .bool _, .bool _ => .refl _
  | .int n, _, _, .int value, .int value' => by
    rw [Int64.toInt_inj.mp (Option.some.inj (value.symm.trans value'))]
    exact .refl _
  | .float _, _, _, h, _ => nomatch h
  | .text s, _, _, .text _, .text _ => .refl _
  | .bytes data, _, _, .bytes data', h' => by
    cases h' with
    | bytes other =>
      rw [bytes_inj data' other]
      exact .refl _
    | list items =>
      rw [eq_ofBytes items data']
      exact .bytes data
  | .list values, _, _, .list items, h' => by
    cases h' with
    | @bytes data _ bytes =>
      rw [eq_ofBytes items bytes]
      exact .unbytes data
    | list items' => exact .list (alike_of_items _ _ _ items items')
  | .record fields, _, _, .record _ h, .record _ h' => .record (alike_of_fields _ _ _ h h')

theorem alike_of_items : ∀ (vs ws : List Value) (items : List Json), DepictsItems vs items →
    DepictsItems ws items → AlikeItems vs ws
  | [], _, _, .nil, .nil => .nil
  | v :: vs, _, _, .cons h rest, .cons h' rest' =>
    .cons (alike_of_depicts v _ _ h h') (alike_of_items vs _ _ rest rest')

theorem alike_of_fields : ∀ (fs gs : List (String × Value)) (members : List (String × Json)),
    DepictsFields fs members → DepictsFields gs members → AlikeFields fs gs
  | [], _, _, .nil, .nil => .nil
  | (name, v) :: fs, _, _, .cons _ h rest, .cons _ h' rest' =>
    .cons name (alike_of_depicts v _ _ h h') (alike_of_fields fs _ _ rest rest')

end

end Value

open Value Json

/-- Both printed texts of a value without doubles are texts of the tree that depicts it, and are
read as this tree. Where a text of one value is a text of another, the values are alike. -/
theorem json_faithful :
    (∀ v : Value, v.floatless = true → v.single = true → ∃ j, Depicts v j ∧
      Spells j v.toJson.compact.toList ∧ Spells j v.toJson.pretty.toList ∧
      ∀ levels, depth j ≤ levels →
        parse levels v.toJson.compact = .ok j ∧ parse levels v.toJson.pretty = .ok j) ∧
    ∀ v w : Value, v.floatless = true → v.single = true → w.floatless = true → w.single = true →
      ∀ text, text = v.toJson.compact ∨ text = v.toJson.pretty →
        text = w.toJson.compact ∨ text = w.toJson.pretty → Alike v w := by
  have spelt {v : Value} (floatless : v.floatless = true) {text : String}
      (printed : text = v.toJson.compact ∨ text = v.toJson.pretty) :
      Spells v.toJson text.toList := by
    obtain rfl | rfl := printed
    · exact compact_spells (whole_toJson v floatless)
    · exact pretty_spells (whole_toJson v floatless)
  constructor
  · intro v floatless single
    have compact := spelt floatless (.inl rfl)
    have pretty := spelt floatless (.inr rfl)
    refine ⟨v.toJson, depicts_toJson v floatless single, compact, pretty, fun levels shallow => ?_⟩
    have read := parse_spells compact shallow
    have read' := parse_spells pretty shallow
    rw [String.ofList_toList] at read read'
    exact ⟨read, read'⟩
  · intro v w floatless single floatless' single' text printed printed'
    have same : v.toJson = w.toJson := (spelt floatless printed).unique (spelt floatless' printed')
    have depicted := depicts_toJson w floatless' single'
    rw [← same] at depicted
    exact alike_of_depicts v w v.toJson (depicts_toJson v floatless single) depicted

namespace ValueSample

/-- Characters that are escaped, below zero, and nothing in an inner list. -/
def shown : Value := .record [
  ("\"a\"", .bytes [0, 255]),
  ("\n\\é", .list [.int (-5), .list [], .undefined, .text "\x01"])]

def shownAgain : Value := .record [
  ("\"a\"", .list [.int 0, .int 255]),
  ("\n\\é", .list [.int (-5), .list [], .undefined, .text "\x01"])]

end ValueSample

open ValueSample in
theorem json_faithful_shown :
    (∃ j, Depicts shown j ∧ parse 127 shown.toJson.compact = .ok j ∧
      parse 127 shown.toJson.pretty = .ok j) ∧ Alike shown shownAgain := by
  obtain ⟨j, depicts, compact, -, read⟩ := json_faithful.1 shown (by decide) (by decide)
  have shallow : depth j ≤ 127 := by
    have same : shown.toJson = j :=
      (compact_spells (whole_toJson shown (by decide))).unique compact
    rw [← same]
    decide
  have again : shown.toJson.compact = shownAgain.toJson.compact := by decide +kernel
  exact ⟨⟨j, depicts, read 127 shallow⟩, json_faithful.2 shown shownAgain (by decide) (by decide)
    (by decide) (by decide) shown.toJson.compact (.inl rfl) (.inl again)⟩

end ByteSchema
