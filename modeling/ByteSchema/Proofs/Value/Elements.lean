import ByteSchema.Proofs.Decode.Reads
import ByteSchema.Proofs.Number.Digits

/-!
# Elements of sequences

Lists, bytes and texts are sequences of values: there is an element at every place below the length,
and the name `length`, the functions for it and the lookups agree on it, `elements_counted`. Bytes
that are read as a text are as many characters, each with its byte as code point.
-/

namespace ByteSchema

theorem Path.index?_of_spells {i : Nat} {name : String}
    (h : Numeral.Spells 10 i name.toList) : index? name = some i :=
  Numeral.unsigned?_of_natural? (h.natural? (by decide) (by decide))

namespace Value

/-- The elements of a list, of bytes or of a text, as values. -/
def elements? : Value → Option (List Value)
  | .list items => some items
  | .bytes data => some (data.map fun b => .int (Int64.ofNat b.toNat))
  | .text s => some (s.toList.map fun c => .text (String.singleton c))
  | _ => none

section

variable {v : Value} {elements : List Value} (h : v.elements? = some elements)

include h

theorem length?_of_elements : v.length? = some elements.length := by
  cases v with
  | list items =>
    cases h
    rfl
  | bytes data =>
    cases h
    exact congrArg some (List.length_map _).symm
  | text s =>
    cases h
    exact congrArg some (String.length_toList.symm.trans (List.length_map _).symm)
  | _ => cases h

theorem child_of_index {i : Nat} {name : String} (index : Path.index? name = some i) :
    v.child name = elements[i]? := by
  cases v with
  | list items | bytes data | text s =>
    cases h
    simp only [child, index, List.getElem?_map]
  | _ => cases h

theorem child_length : v.child "length" = some (.int (Int64.ofNat elements.length)) := by
  have index : Path.index? "length" = none := rfl
  have field : v.lengthField "length" = some (.int (Int64.ofNat elements.length)) := by
    rw [lengthField, if_pos rfl, length?_of_elements h, Option.map_some]
  cases v with
  | list items | bytes data | text s =>
    rw [child, index]
    exact field
  | _ => cases h

theorem listLength_of_elements :
    Function.listLength [v] = .ok (.int (Int64.ofNat elements.length)) := by
  have counted := length?_of_elements h
  cases v with
  | list items | bytes data | text s =>
    rw [Function.listLength, counted]
    nofun
  | _ => cases h

theorem access_int {i : Nat} (small : i < 0x8000000000000000) :
    Operator.access.apply v (.int (Int64.ofNat i)) = .ok (elements[i]?.getD .undefined) := by
  have shown : (Value.int (Int64.ofNat i)).display = toString i := by
    have value : (Int64.ofNat i).toInt = i := Int64.toInt_ofNat_of_lt small
    rw [display, displayInt, value]
    rfl
  rw [Operator.apply, shown, child_of_index h (Path.index?_of_spells (Numeral.spells_toString i))]

end

/-! ### Bytes as a text -/

theorem elements?_latin1 (data : List UInt8) : (text (latin1 data)).elements? =
    some (data.map fun b => .text (String.singleton (Char.ofNat b.toNat))) := by
  rw [elements?, latin1, String.toList_ofList, List.map_map]
  rfl

theorem length?_latin1 (data : List UInt8) : (text (latin1 data)).length? = some data.length := by
  rw [length?_of_elements (elements?_latin1 data), List.length_map]

theorem toNat_ofNat_byte (b : UInt8) : (Char.ofNat b.toNat).toNat = b.toNat := by
  have small := b.toNat_lt
  rw [Char.ofNat, dif_pos (.inl (by omega))]
  rfl

/-- The character at a place has the byte there as its code point. -/
theorem child_latin1 {data : List UInt8} {i : Nat} {name : String}
    (index : Path.index? name = some i) (below : i < data.length) :
    ∃ (k : Int64) (c : Char), (bytes data).child name = some (.int k) ∧
      (text (latin1 data)).child name = some (.text (String.singleton c)) ∧
      (c.toNat : Int) = k.toInt := by
  have byte := child_of_index (v := bytes data) rfl index
  have char := child_of_index (elements?_latin1 data) index
  rw [List.getElem?_map, List.getElem?_eq_getElem below] at byte char
  refine ⟨_, _, byte, char, ?_⟩
  have small := data[i].toNat_lt
  rw [toNat_ofNat_byte, Int64.toInt_ofNat_of_lt (by omega)]

end Value

/-- A list, bytes or a text has an element at the places below its length and nowhere else, and the
name `length`, both functions and the operator say so too. Bytes read as a text and as bytes make
sequences of one length, with a character where there is a byte that is its code point. -/
theorem elements_counted :
    (∀ (v : Value) (elements : List Value), v.elements? = some elements →
      v.length? = some elements.length ∧
      (∀ (i : Nat) (name : String), Numeral.Spells 10 i name.toList →
        v.child name = elements[i]? ∧ ((v.child name).isSome ↔ i < elements.length)) ∧
      (∀ i : Nat, i < 0x8000000000000000 → Operator.access.apply v (.int (Int64.ofNat i)) =
        .ok (elements[i]?.getD .undefined)) ∧
      v.child "length" = some (.int (Int64.ofNat elements.length)) ∧
      ∀ name ∈ ["list::length", "list::size"], ∃ f, Registry.builtins.get? name = some f ∧
        f [v] = .ok (.int (Int64.ofNat elements.length))) ∧
    ∀ (data after : List UInt8) (c : Cursor), c.rest = data ++ after →
      ∃ s, Action.asciiField data.length c = .ok (.text s, c.advance data.length) ∧
        Action.bytesField data.length c = .ok (.bytes data, c.advance data.length) ∧
        (Value.text s).length? = (Value.bytes data).length? ∧
        ∀ (i : Nat) (name : String), Numeral.Spells 10 i name.toList → i < data.length →
          ∃ (k : Int64) (ch : Char), (Value.bytes data).child name = some (.int k) ∧
            (Value.text s).child name = some (.text (String.singleton ch)) ∧
            (ch.toNat : Int) = k.toInt := by
  refine ⟨fun v elements h => ⟨Value.length?_of_elements h, fun i name spelt => ?_,
    fun i => Value.access_int h, Value.child_length h, fun name named => ?_⟩,
    fun data after c hrest => ?_⟩
  · have found := Value.child_of_index h (Path.index?_of_spells spelt)
    refine ⟨found, ?_⟩
    rw [found]
    simp
  · have counted := Value.listLength_of_elements h
    rcases List.mem_cons.mp named with rfl | named
    · exact ⟨_, rfl, counted⟩
    · obtain rfl := List.mem_singleton.mp named
      exact ⟨_, rfl, counted⟩
  · have taken := Cursor.take_of_front hrest
    refine ⟨Value.latin1 data, ?_, ?_, Value.length?_latin1 data, fun i name spelt =>
      Value.child_latin1 (Path.index?_of_spells spelt)⟩
    · rw [Action.asciiField, taken]
      rfl
    · rw [Action.bytesField, taken]
      rfl

/-- Characters of one, two and three bytes, and a byte that makes a character of two. -/
theorem elements_counted_wide :
    (Value.text "né→").child "02" = some (.text "→") ∧
    ((Value.text "né→").child "3").isSome = false ∧
    (Value.text "né→").child "length" = some (.int 3) ∧
    ∃ s, Action.asciiField 2 ⟨[1, 0x47, 0xe9, 7], 1, .little⟩ =
        .ok (.text s, ⟨[1, 0x47, 0xe9, 7], 3, .little⟩) ∧
      ∃ (k : Int64) (ch : Char), (Value.bytes [0x47, 0xe9]).child "1" = some (.int k) ∧
        (Value.text s).child "1" = some (.text (String.singleton ch)) ∧
        (ch.toNat : Int) = k.toInt := by
  obtain ⟨sequence, bytes⟩ := elements_counted
  have two : Numeral.Spells 10 2 "02".toList := @Numeral.Spells.intro 10 2 1 ['2'] rfl
  have three : Numeral.Spells 10 3 "3".toList := @Numeral.Spells.intro 10 3 0 ['3'] rfl
  have one : Numeral.Spells 10 1 "1".toList := @Numeral.Spells.intro 10 1 0 ['1'] rfl
  obtain ⟨-, lookups, -, length, -⟩ := sequence (.text "né→") [.text "n", .text "é", .text "→"] rfl
  obtain ⟨s, read, -, -, places⟩ := bytes [0x47, 0xe9] [7] ⟨[1, 0x47, 0xe9, 7], 1, .little⟩ rfl
  refine ⟨(lookups 2 "02" two).1, ?_, length, s, read, places 1 "1" one (by decide)⟩
  have absent := (lookups 3 "3" three).2
  rw [Bool.eq_false_iff, ne_eq, absent]
  decide

end ByteSchema
