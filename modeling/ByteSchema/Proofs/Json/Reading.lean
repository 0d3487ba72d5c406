import ByteSchema.Json.Reader
import ByteSchema.Proofs.Json.Grammar
import ByteSchema.Proofs.Number.Digits
import ByteSchema.Proofs.Value.Words
import Mathlib.Data.List.TakeWhile

/-!
# The reader takes every text of the grammar

Whatever follows a text of the grammar, the reader takes just this text and gives its tree:
`readValue_spells`. So a text has at most one tree, and `parse` finds it.
-/

namespace ByteSchema.Json

/-! ### Digits -/

namespace Numeral

open ByteSchema.Numeral

theorem toNat_of_digit? {c : Char} {d : Nat} (h : digit? 10 c = some d) : c.toNat - 48 = d := by
  simp only [digit?, Option.ite_none_right_eq_some, Option.some.injEq] at h
  obtain ⟨small, rfl⟩ := h
  by_cases decimal : 48 ≤ c.toNat ∧ c.toNat ≤ 57
  · rw [if_pos decimal]
  · rw [if_neg decimal] at small
    split at small
    · omega
    · split at small <;> omega

theorem le_of_digits? {base acc n : Nat} {cs : List Char} (hbase : 1 ≤ base)
    (h : digits? base acc cs = some n) : acc ≤ n := by
  induction cs generalizing acc with
  | nil =>
    cases h
    exact Nat.le_refl _
  | cons c rest ih =>
    unfold digits? at h
    split at h
    · have step := ih h
      have grows : acc ≤ acc * base := Nat.le_mul_of_pos_right acc hbase
      omega
    · cases h

theorem accumulate_digits {acc n : Nat} {cs : List Char} (h : digits? 10 acc cs = some n)
    (small : n < UInt64.size) : accumulate acc cs = (n, 0) := by
  induction cs generalizing acc with
  | nil =>
    cases h
    rfl
  | cons c rest ih =>
    unfold digits? at h
    split at h
    · next d hd =>
      have value := toNat_of_digit? hd
      have below : acc * 10 + d < UInt64.size :=
        Nat.lt_of_le_of_lt (le_of_digits? (by decide) h) small
      rw [accumulate, value]
      exact (if_pos below).trans (ih h)
    · cases h

theorem digits?_of_accumulate {acc n : Nat} {cs : List Char}
    (digits : ∀ c ∈ cs, isDigit c = true) (small : acc < UInt64.size)
    (h : accumulate acc cs = (n, 0)) : digits? 10 acc cs = some n ∧ n < UInt64.size := by
  induction cs generalizing acc with
  | nil =>
    cases h
    exact ⟨rfl, small⟩
  | cons c rest ih =>
    obtain ⟨digit, digits⟩ := List.forall_mem_cons.mp digits
    obtain ⟨d, hd⟩ := Option.isSome_iff_exists.mp digit
    rw [accumulate, toNat_of_digit? hd] at h
    split at h
    · next below =>
      rw [digits?, hd]
      exact ih digits below h
    · simp at h

end Numeral

/-! ### Where a value ends -/

theorem isSpace_iff {c : Char} : isSpace c = true ↔ c = ' ' ∨ c = '\n' ∨ c = '\t' ∨ c = '\r' := by
  simp only [isSpace, Bool.or_eq_true, decide_eq_true_eq, or_assoc]

/-- Nothing follows that could belong to a number. -/
def Closed (rest : List Char) : Prop :=
  ∀ c ∈ rest.head?, isSpace c = true ∨ c = ',' ∨ c = ']' ∨ c = '\x7d'

theorem Closed.not_digit {rest : List Char} (h : Closed rest) :
    ∀ c ∈ rest.head?, Numeral.isDigit c = false := by
  intro c hc
  obtain space | rfl | rfl | rfl := h c hc
  · obtain rfl | rfl | rfl | rfl := isSpace_iff.mp space <;> decide
  all_goals decide

theorem Closed.of_append {after rest : List Char} (h : Blank after) (closed : Closed rest) :
    Closed (after ++ rest) := by
  cases after with
  | nil => exact closed
  | cons c more =>
    intro c' hc
    obtain rfl : c = c' := Option.some.inj hc
    exact .inl (isSpace_iff.mpr (h c List.mem_cons_self))

/-! ### Numbers -/

namespace Numeral

open ByteSchema.Numeral

theorem takeWhile_digits {ds rest : List Char} (digits : ∀ c ∈ ds, isDigit c = true)
    (closed : Closed rest) : (ds ++ rest).takeWhile isDigit = ds := by
  rw [List.takeWhile_append_of_pos digits]
  cases rest with
  | nil => exact List.append_nil ds
  | cons c more =>
    have stop := closed.not_digit c rfl
    rw [List.takeWhile_cons_of_neg (by rw [stop]; decide), List.append_nil]

theorem dropWhile_digits {ds rest : List Char} (digits : ∀ c ∈ ds, isDigit c = true)
    (closed : Closed rest) : (ds ++ rest).dropWhile isDigit = rest := by
  rw [List.dropWhile_append_of_pos digits]
  cases rest with
  | nil => rfl
  | cons c more =>
    have stop := closed.not_digit c rfl
    exact List.dropWhile_cons_of_neg (by rw [stop]; decide)

theorem readNumber_decimal (negative : Bool) {n : Nat} {ds rest : List Char}
    (decimal : Decimal n ds) (small : n < UInt64.size) (closed : Closed rest) :
    readNumber negative (ds ++ rest) = .value (integer negative n) rest := by
  have value := (natural?_eq_some.mp decimal.value).2
  have digits : ∀ c ∈ ds, isDigit c = true := isSome_digit? value
  simp only [readNumber]
  rw [takeWhile_digits digits closed, dropWhile_digits digits closed, accumulate_digits value small]
  split
  · have found := decimal.value
    cases found
  · have lead := decimal.lead
    simp at lead
  · dsimp only
    split
    · exact absurd (closed '.' rfl) (by decide)
    · exact absurd (closed 'e' rfl) (by decide)
    · exact absurd (closed 'E' rfl) (by decide)
    · rfl

theorem integer_natural (n : UInt64) : integer false n.toNat = .number (.natural n) := by
  have word : n.toNat.toUInt64 = n := UInt64.ofNat_toNat
  unfold integer
  generalize Word.ofInt? (-(n.toNat : Int)) = wide
  rw [word]

theorem integer_negative {n : Int64} {m : Nat} (value : n.toInt = -(m : Int)) (positive : 0 < m) :
    integer true m = .number (.negative n) := by
  have word : Word.ofInt? (-(m : Int)) = some n := by rw [← value, Word.ofInt?_toInt]
  obtain ⟨k, rfl⟩ := Nat.exists_eq_succ_of_ne_zero (Nat.ne_of_gt positive)
  rw [integer.eq_def, word]

section

variable {negative : Bool} {digits : Nat} {exponent : Int} {cs rest : List Char} {n : UInt64}

theorem noDigits_ne_value {s : Source} : noDigits cs ≠ .value s rest := by
  cases cs <;> simp [noDigits, Reading.misspelt]

theorem leaf_ne_natural (x : Option Float) : leaf negative x ≠ .number (.natural n) := by
  cases x <;> simp [leaf]

theorem withExponent_ne_natural (below : Bool) (power : Nat) :
    withExponent negative below digits exponent power ≠ .number (.natural n) := by
  unfold withExponent double
  split <;> exact leaf_ne_natural _

theorem readExponent_ne_natural :
    readExponent negative digits exponent cs ≠ .value (.number (.natural n)) rest := by
  intro h
  unfold readExponent at h
  split at h
  all_goals
    split at h
    · exact withExponent_ne_natural _ _ (Reading.value.inj h).1
    · exact noDigits_ne_value h

theorem readPlaces_ne_natural :
    readPlaces negative digits exponent cs ≠ .value (.number (.natural n)) rest := by
  intro h
  unfold readPlaces at h
  dsimp only at h
  split at h
  · exact noDigits_ne_value h
  · split at h
    · exact readExponent_ne_natural h
    · exact readExponent_ne_natural h
    · exact leaf_ne_natural _ (Reading.value.inj h).1

theorem eq_of_integer {m : Nat} (h : integer negative m = .number (.natural n)) :
    negative = false ∧ m.toUInt64 = n := by
  unfold integer at h
  split at h <;> simp_all

theorem lead_of_ne {whole : List Char} (lone : ∀ d more, whole = '0' :: d :: more → False) :
    whole = ['0'] ∨ whole.head? ≠ some '0' := by
  cases whole with
  | nil => exact .inr (by simp)
  | cons c more =>
    by_cases zero : c = '0'
    · subst zero
      cases more with
      | nil => exact .inl rfl
      | cons d more => exact (lone d more rfl).elim
    · exact .inr fun same => zero (Option.some.inj same)

/-- A natural number has neither a sign nor a fraction nor an exponent. -/
theorem natural_of_readNumber (h : readNumber negative cs = .value (.number (.natural n)) rest) :
    negative = false ∧ ∃ ds, Decimal n.toNat ds ∧ cs = ds ++ rest := by
  unfold readNumber at h
  dsimp only at h
  split at h
  · exact absurd h noDigits_ne_value
  · cases h
  · next whole nonempty lead =>
    split at h
    · exact absurd h readPlaces_ne_natural
    · exact absurd h readExponent_ne_natural
    · exact absurd h readExponent_ne_natural
    · split at h
      · next exact =>
        obtain ⟨found, rfl⟩ := Reading.value.inj h
        obtain ⟨rfl, same⟩ := eq_of_integer found
        have counted : accumulate 0 (cs.takeWhile isDigit) =
          ((accumulate 0 (cs.takeWhile isDigit)).1, 0) := Prod.ext rfl exact
        obtain ⟨value, small⟩ :=
          digits?_of_accumulate (fun c => List.mem_takeWhile_imp) (by decide) counted
        have word : n.toNat = (accumulate 0 (cs.takeWhile isDigit)).1 := by
          rw [← same]
          exact UInt64.toNat_ofNat_of_lt small
        refine ⟨rfl, _, ⟨?_, ?_⟩, List.takeWhile_append_dropWhile.symm⟩
        · rw [word]
          exact natural?_eq_some.mpr ⟨nonempty, value⟩
        · exact lead_of_ne lead
      · exact absurd (Reading.value.inj h).1 (leaf_ne_natural _)

theorem readNumber_natural (closed : Closed rest) :
    readNumber negative (cs ++ rest) = .value (.number (.natural n)) rest ↔
      negative = false ∧ Decimal n.toNat cs := by
  constructor
  · intro h
    obtain ⟨unsigned, ds, decimal, same⟩ := natural_of_readNumber h
    exact ⟨unsigned, List.append_cancel_right same ▸ decimal⟩
  · rintro ⟨rfl, decimal⟩
    rw [readNumber_decimal false decimal n.toNat_lt closed, integer_natural]

end

end Numeral

/-! ### Texts -/

theorem pieces_plain {c : Char} (acc : List Piece) (rest : List Char) (printable : 0x20 ≤ c.toNat)
    (quote : c ≠ '"') (backslash : c ≠ '\\') :
    pieces acc (c :: rest) = pieces (.char c :: acc) rest := by
  rw [pieces]
  · exact if_neg (Nat.not_lt.mpr printable)
  · exact quote
  · exact fun _ _ _ _ _ h => absurd h backslash
  · exact fun _ h => absurd h backslash
  · exact fun _ _ h => absurd h backslash
  · exact fun h => absurd h backslash

theorem pieces_unit {n : Nat} {cs : List Char} (acc : List Piece) (rest : List Char)
    (unit : Unit n cs) : pieces acc ('\\' :: 'u' :: (cs ++ rest)) = pieces (.unit n :: acc) rest := by
  obtain @⟨a, b, c, d, value⟩ := unit
  have found : hexUnit? a b c d = some n := value
  have opened : [a, b, c, d] ++ rest = a :: b :: c :: d :: rest := rfl
  rw [opened, pieces, found]

theorem join_unit {c : Char} (acc : List Char) (more : List Piece) :
    Piece.join acc (.unit c.toNat :: more) = Piece.join (c :: acc) more := by
  have scalar : c.toNat < 0xd800 ∨ 0xdfff < c.toNat ∧ c.toNat < 0x110000 := c.valid
  have high : Piece.isHigh c.toNat = false := by
    rw [Piece.isHigh, Bool.and_eq_false_iff, decide_eq_false_iff_not, decide_eq_false_iff_not]
    omega
  have low : Piece.isLow c.toNat = false := by
    rw [Piece.isLow, Bool.and_eq_false_iff, decide_eq_false_iff_not, decide_eq_false_iff_not]
    omega
  rw [Piece.join.eq_def]
  simp only [low, high, Bool.false_eq_true, if_false, Char.ofNat_toNat]

theorem join_pair {c : Char} {high low : Nat} (acc : List Char) (more : List Piece)
    (hhigh : high < 0x400) (hlow : low < 0x400) (value : c.toNat = 0x10000 + high * 0x400 + low) :
    Piece.join acc (.unit (0xd800 + high) :: .unit (0xdc00 + low) :: more) =
      Piece.join (c :: acc) more := by
  have first : Piece.isLow (0xd800 + high) = false := by
    rw [Piece.isLow, Bool.and_eq_false_iff, decide_eq_false_iff_not, decide_eq_false_iff_not]
    omega
  have waits : Piece.isHigh (0xd800 + high) = true := by
    rw [Piece.isHigh, Bool.and_eq_true, decide_eq_true_eq, decide_eq_true_eq]
    omega
  have second : Piece.isLow (0xdc00 + low) = true := by
    rw [Piece.isLow, Bool.and_eq_true, decide_eq_true_eq, decide_eq_true_eq]
    omega
  have both : 0x10000 + (0xd800 + high - 0xd800) * 0x400 + (0xdc00 + low - 0xdc00) = c.toNat := by
    rw [Nat.add_sub_cancel_left, Nat.add_sub_cancel_left, value]
  rw [Piece.join.eq_def]
  simp only [first, waits, second, both, Bool.false_eq_true, if_false, if_true, Char.ofNat_toNat]

/-- The pieces of a text stand for its characters. -/
structure Stands (chars cs : List Char) (found : List Piece) : Prop where
  pieces (acc : List Piece) (rest : List Char) :
    Json.pieces acc (cs ++ rest) = Json.pieces (found.reverse ++ acc) rest
  join (acc : List Char) (more : List Piece) :
    Piece.join acc (found ++ more) = Piece.join (chars.reverse ++ acc) more

theorem pieces_letter {e c : Char} (h : (e, c) ∈ letters) (acc : List Piece) (rest : List Char) :
    pieces acc ('\\' :: e :: rest) = pieces (.char c :: acc) rest := by
  simp only [letters, List.mem_cons, Prod.mk.injEq, List.not_mem_nil, or_false] at h
  obtain ⟨rfl, rfl⟩ | ⟨rfl, rfl⟩ | ⟨rfl, rfl⟩ | ⟨rfl, rfl⟩ | ⟨rfl, rfl⟩ | ⟨rfl, rfl⟩ | ⟨rfl, rfl⟩ |
    ⟨rfl, rfl⟩ := h <;> rfl

theorem stands_char {c : Char} {cs : List Char} (h : SpellsChar c cs) :
    ∃ found, Stands [c] cs found := by
  cases h with
  | plain printable quote backslash =>
    exact ⟨[.char c], fun acc rest => pieces_plain acc rest printable quote backslash, fun _ _ => rfl⟩
  | letter member =>
    exact ⟨[.char c], pieces_letter member, fun _ _ => rfl⟩
  | unit unit =>
    exact ⟨[.unit c.toNat], fun acc rest => pieces_unit acc rest unit, join_unit⟩
  | @pair _ high low cs cs' hhigh hlow value first second =>
    refine ⟨[.unit (0xd800 + high), .unit (0xdc00 + low)], fun acc rest => ?_,
      fun acc more => join_pair acc more hhigh hlow value⟩
    have split : '\\' :: 'u' :: (cs ++ '\\' :: 'u' :: cs') ++ rest =
        '\\' :: 'u' :: (cs ++ '\\' :: 'u' :: (cs' ++ rest)) := by simp
    rw [split, pieces_unit acc _ first, pieces_unit _ rest second]
    rfl

theorem stands_chars {chars cs : List Char} (h : SpellsChars chars cs) :
    ∃ found, Stands chars cs found := by
  induction h with
  | nil => exact ⟨[], fun _ _ => rfl, fun _ _ => rfl⟩
  | @cons c rest cs more first _ ih =>
    obtain ⟨found, head⟩ := stands_char first
    obtain ⟨others, tail⟩ := ih
    refine ⟨found ++ others, fun acc after => ?_, fun acc after => ?_⟩
    · rw [List.append_assoc, head.pieces, tail.pieces, List.reverse_append, List.append_assoc]
    · rw [List.append_assoc, head.join, tail.join]
      simp

theorem readText_spells {s : String} {cs : List Char} (h : SpellsText s cs) (rest : List Char) :
    ∃ tail, cs = '"' :: tail ∧ readText (tail ++ rest) = .value (.text s) rest := by
  obtain @⟨cs, chars⟩ := h
  obtain ⟨found, stands⟩ := stands_chars chars
  refine ⟨_, rfl, ?_⟩
  have taken : pieces [] (cs ++ '"' :: rest) = (found.reverse, .ok rest) := by
    rw [stands.pieces, List.append_nil]
    rfl
  have joined : Piece.join [] found.reverse.reverse = some s.toList := by
    have all := stands.join [] []
    rw [List.append_nil, List.append_nil] at all
    rw [List.reverse_reverse, all, Piece.join, List.reverse_reverse]
  rw [List.append_assoc]
  simp only [readText, List.singleton_append, taken, joined, String.ofList_toList]

/-! ### White space -/

theorem skipSpace_append {before : List Char} (h : Blank before) (rest : List Char) :
    skipSpace (before ++ rest) = skipSpace rest :=
  List.dropWhile_append_of_pos fun c hc => isSpace_iff.mpr (h c hc)

theorem skipSpace_cons {c : Char} (h : isSpace c = false) (rest : List Char) :
    skipSpace (c :: rest) = c :: rest :=
  List.dropWhile_cons_of_neg (by rw [h]; decide)

theorem skipSpace_skipSpace (cs : List Char) : skipSpace (skipSpace cs) = skipSpace cs := by
  induction cs with
  | nil => rfl
  | cons c rest ih =>
    cases h : isSpace c with
    | false => rw [skipSpace_cons h, skipSpace_cons h]
    | true =>
      have front : skipSpace (c :: rest) = skipSpace rest := List.dropWhile_cons_of_pos h
      rw [front, ih]

theorem readValue_skipSpace (fuel : Nat) (cs : List Char) :
    readValue fuel (skipSpace cs) = readValue fuel cs := by
  cases fuel with
  | zero => rfl
  | succ fuel => rw [readValue, skipSpace_skipSpace, readValue]

theorem readItems_skipSpace (fuel : Nat) (acc : List Source) (cs : List Char) :
    readItems fuel acc (skipSpace cs) = readItems fuel acc cs := by
  cases fuel with
  | zero => rfl
  | succ fuel => rw [readItems, readValue_skipSpace, readItems]

theorem readMembers_skipSpace (fuel : Nat) (acc : List (Source × Source)) (cs : List Char) :
    readMembers fuel acc (skipSpace cs) = readMembers fuel acc cs := by
  cases fuel with
  | zero => rfl
  | succ fuel => rw [readMembers, skipSpace_skipSpace, readMembers]

/-! ### Values -/

namespace Source

mutual

/-- The tree as it is read from a text without faults. -/
def ofJson : Json → Source
  | .null => .null
  | .bool b => .bool b
  | .number n => .number n
  | .text s => .text s
  | .list items => .list (ofItems items) none
  | .object members => .object (ofMembers members) none

def ofItems : List Json → List Source
  | [] => []
  | item :: items => ofJson item :: ofItems items

def ofMembers : List (String × Json) → List (Source × Source)
  | [] => []
  | (key, value) :: members => (.text key, ofJson value) :: ofMembers members

end

theorem ofItems_eq (items : List Json) : ofItems items = items.map ofJson := by
  induction items with
  | nil => rw [ofItems, List.map_nil]
  | cons item items ih => rw [ofItems, ih, List.map_cons]

theorem ofMembers_eq (members : List (String × Json)) :
    ofMembers members = members.map fun m => (.text m.1, ofJson m.2) := by
  induction members with
  | nil => rw [ofMembers, List.map_nil]
  | cons member members ih => rw [ofMembers, ih, List.map_cons]

mutual

theorem strict_ofJson : ∀ (j : Json) (levels : Nat), depth j ≤ levels →
    strict levels (ofJson j) = .ok j
  | .null, _, _ => by rw [ofJson, strict]
  | .bool b, _, _ => by rw [ofJson, strict]
  | .number n, _, _ => by rw [ofJson, strict]
  | .text s, _, _ => by rw [ofJson, strict]
  | .list items, levels + 1, h => by
    rw [ofJson, strict, strict_ofItems items levels (Nat.le_of_succ_le_succ h)]
    rfl
  | .object members, levels + 1, h => by
    rw [ofJson, strict, strict_ofMembers members levels (Nat.le_of_succ_le_succ h)]
    rfl

theorem strict_ofItems : ∀ (items : List Json) (levels : Nat), depthItems items ≤ levels →
    strictItems levels (ofItems items) = .ok items
  | [], _, _ => by rw [ofItems, strictItems]
  | item :: items, levels, h => by
    obtain ⟨first, rest⟩ := Nat.max_le.mp h
    rw [ofItems, strictItems, strict_ofJson item levels first, strict_ofItems items levels rest]
    rfl

theorem strict_ofMembers : ∀ (members : List (String × Json)) (levels : Nat),
    depthMembers members ≤ levels → strictMembers levels (ofMembers members) = .ok members
  | [], _, _ => by rw [ofMembers, strictMembers]
  | (key, value) :: members, levels, h => by
    obtain ⟨first, rest⟩ := Nat.max_le.mp h
    rw [ofMembers, strictMembers, strict_ofJson value levels first,
      strict_ofMembers members levels rest]
    rfl

end

end Source

open Source (ofJson ofItems ofMembers)

/-- With this fuel the readers take every text that is short enough. -/
structure ReadsAt (fuel : Nat) : Prop where
  value {j : Json} {cs : List Char} (rest : List Char) : Spells j cs → 2 * cs.length ≤ fuel →
    Closed rest → readValue fuel (cs ++ rest) = .value (ofJson j) rest
  items {items : List Json} {cs : List Char} (acc : List Source) (rest : List Char) :
    SpellsItems items cs → 2 * cs.length + 1 ≤ fuel →
    readItems fuel acc (cs ++ ']' :: rest) = .value (.list (acc.reverse ++ ofItems items) none) rest
  members {members : List (String × Json)} {cs : List Char} (acc : List (Source × Source))
    (rest : List Char) : SpellsMembers members cs → 2 * cs.length + 1 ≤ fuel →
    readMembers fuel acc (cs ++ '\x7d' :: rest) =
      .value (.object (acc.reverse ++ ofMembers members) none) rest

theorem Decimal.head {n : Nat} {cs : List Char} (h : Decimal n cs) :
    ∃ c more, cs = c :: more ∧ Numeral.isDigit c = true := by
  have value := h.value
  cases cs with
  | nil => cases value
  | cons c more =>
    exact ⟨c, more, rfl, Numeral.isSome_digit? value c List.mem_cons_self⟩

theorem isSpace_of_isDigit {c : Char} (digit : Numeral.isDigit c = true) : isSpace c = false := by
  rw [← Bool.not_eq_true, isSpace_iff]
  rintro (rfl | rfl | rfl | rfl) <;> exact absurd digit (by decide)

theorem readValue_number {n : Number} {cs rest : List Char} (fuel : Nat) (h : SpellsNumber n cs)
    (closed : Closed rest) : readValue (fuel + 1) (cs ++ rest) = .value (.number n) rest := by
  cases h with
  | @natural n cs decimal =>
    obtain ⟨c, more, rfl, digit⟩ := decimal.head
    have other (x : Char) (hx : Numeral.isDigit x = false) : c ≠ x := by
      rintro rfl
      rw [hx] at digit
      cases digit
    have read := Numeral.readNumber_decimal false decimal n.toNat_lt closed
    rw [Numeral.integer_natural] at read
    rw [List.cons_append] at read ⊢
    rw [readValue, skipSpace_cons (isSpace_of_isDigit digit)]
    simp only [other '[' (by decide), other '\x7b' (by decide), other '"' (by decide),
      other '-' (by decide), digit, if_false, if_true]
    exact read
  | @negative n m cs value positive decimal =>
    have small : m < UInt64.size := by
      have least := Int64.le_toInt n
      have size : UInt64.size = 0x10000000000000000 := rfl
      omega
    have read := Numeral.readNumber_decimal true decimal small closed
    rw [Numeral.integer_negative value positive] at read
    exact read

theorem Spells.head {j : Json} {cs : List Char} (h : Spells j cs) :
    ∃ c more, cs = c :: more ∧ isSpace c = false ∧ c ≠ ']' := by
  cases h with
  | number spelt =>
    cases spelt with
    | natural decimal =>
      obtain ⟨c, more, rfl, digit⟩ := decimal.head
      refine ⟨c, more, rfl, isSpace_of_isDigit digit, ?_⟩
      rintro rfl
      exact absurd digit (by decide)
    | negative _ _ _ => exact ⟨'-', _, rfl, by decide, by decide⟩
  | text spelt =>
    obtain ⟨_⟩ := spelt
    exact ⟨'"', _, rfl, by decide, by decide⟩
  | _ => exact ⟨_, _, rfl, by decide, by decide⟩

theorem closed_cons {c : Char} (h : c = ',' ∨ c = ']' ∨ c = '\x7d') (more : List Char) :
    Closed (c :: more) := by
  intro c' hc
  obtain rfl : c = c' := Option.some.inj hc
  exact .inr h

theorem skipSpace_delimiter {c : Char} (h : c = ',' ∨ c = ']' ∨ c = '\x7d') (more : List Char) :
    skipSpace (c :: more) = c :: more := by
  refine skipSpace_cons ?_ more
  obtain rfl | rfl | rfl := h <;> decide

/-- A padded value is read with the space before it, and only space is left before what follows. -/
theorem ReadsAt.padded {fuel : Nat} (h : ReadsAt fuel) {j : Json} {cs : List Char} {c : Char}
    (more : List Char) (delimiter : c = ',' ∨ c = ']' ∨ c = '\x7d') (padded : Padded j cs)
    (enough : 2 * cs.length ≤ fuel) :
    ∃ left, readValue fuel (cs ++ c :: more) = .value (ofJson j) left ∧
      skipSpace left = c :: more := by
  obtain @⟨_, before, cs, after, hbefore, spelt, hafter⟩ := padded
  have closed : Closed (after ++ c :: more) := (closed_cons delimiter more).of_append hafter
  refine ⟨after ++ c :: more, ?_, ?_⟩
  · have split : before ++ cs ++ after ++ c :: more = before ++ (cs ++ (after ++ c :: more)) := by
      simp only [List.append_assoc]
    rw [List.length_append, List.length_append] at enough
    rw [split, ← readValue_skipSpace, skipSpace_append hbefore, readValue_skipSpace]
    exact h.value _ spelt (by omega) closed
  · rw [skipSpace_append hafter, skipSpace_delimiter delimiter]

theorem Padded.head {j : Json} {cs : List Char} (h : Padded j cs) (rest : List Char) :
    ∃ c more, skipSpace (cs ++ rest) = c :: more ∧ c ≠ ']' := by
  obtain @⟨_, before, cs, after, hbefore, spelt, -⟩ := h
  obtain ⟨c, more, rfl, space, open'⟩ := spelt.head
  refine ⟨c, more ++ (after ++ rest), ?_, open'⟩
  have split : before ++ c :: more ++ after ++ rest = before ++ c :: (more ++ (after ++ rest)) := by
    simp
  rw [split, skipSpace_append hbefore, skipSpace_cons space]

theorem SpellsItems.head {items : List Json} {cs : List Char} (h : SpellsItems items cs)
    (rest : List Char) : ∃ c more, skipSpace (cs ++ rest) = c :: more ∧ c ≠ ']' := by
  cases h with
  | last padded => exact padded.head rest
  | cons padded _ =>
    rw [List.append_assoc]
    exact padded.head _

theorem ReadsAt.items_succ {fuel : Nat} (h : ReadsAt fuel) {items : List Json} {cs : List Char}
    (acc : List Source) (rest : List Char) (spelt : SpellsItems items cs)
    (enough : 2 * cs.length + 1 ≤ fuel + 1) : readItems (fuel + 1) acc (cs ++ ']' :: rest) =
      .value (.list (acc.reverse ++ ofItems items) none) rest := by
  cases spelt with
  | last padded =>
    obtain ⟨left, read, space⟩ := h.padded rest (.inr (.inl rfl)) padded (by omega)
    rw [readItems, read]
    dsimp only
    rw [space]
    rfl
  | @cons j items cs more padded others =>
    rw [List.length_append, List.length_cons] at enough
    obtain ⟨left, read, space⟩ := h.padded (more ++ ']' :: rest) (.inl rfl) padded (by omega)
    rw [List.append_assoc, List.cons_append, readItems, read]
    dsimp only
    rw [space]
    refine (h.items (ofJson j :: acc) rest others (by omega)).trans ?_
    rw [List.reverse_cons, List.append_assoc]
    rfl

/-- A member is read in three steps: its name, the colon and its value. -/
theorem ReadsAt.member {fuel : Nat} (h : ReadsAt fuel) {key : String} {j : Json} {cs : List Char}
    {c : Char} (more : List Char) (delimiter : c = ',' ∨ c = ']' ∨ c = '\x7d')
    (spelt : SpellsMember (key, j) cs) (enough : 2 * cs.length ≤ fuel) :
    ∃ start named valued left, skipSpace (cs ++ c :: more) = '"' :: start ∧
      readText start = .value (.text key) named ∧ skipSpace named = ':' :: valued ∧
      readValue fuel valued = .value (ofJson j) left ∧ skipSpace left = c :: more := by
  obtain @⟨_, _, before, name, between, cs, hbefore, hname, hbetween, padded⟩ := spelt
  rw [List.length_append, List.length_cons] at enough
  obtain ⟨tail, rfl, text⟩ := readText_spells hname (between ++ ':' :: (cs ++ c :: more))
  obtain ⟨left, read, space⟩ := h.padded more delimiter padded (by omega)
  refine ⟨_, _, _, left, ?_, text, ?_, read, space⟩
  · have split : before ++ '"' :: tail ++ between ++ ':' :: cs ++ c :: more =
        before ++ '"' :: (tail ++ (between ++ ':' :: (cs ++ c :: more))) := by simp
    rw [split, skipSpace_append hbefore, skipSpace_cons (by decide)]
  · rw [skipSpace_append hbetween, skipSpace_cons (by decide)]

theorem ReadsAt.members_succ {fuel : Nat} (h : ReadsAt fuel) {members : List (String × Json)}
    {cs : List Char} (acc : List (Source × Source)) (rest : List Char)
    (spelt : SpellsMembers members cs) (enough : 2 * cs.length + 1 ≤ fuel + 1) :
    readMembers (fuel + 1) acc (cs ++ '\x7d' :: rest) =
      .value (.object (acc.reverse ++ ofMembers members) none) rest := by
  cases spelt with
  | @last member _ spelt =>
    obtain ⟨key, j⟩ := member
    obtain ⟨start, named, valued, left, opened, text, colon, read, space⟩ :=
      h.member rest (.inr (.inr rfl)) spelt (by omega)
    simp only [readMembers, opened, text, colon, read, space]
    rfl
  | @cons member members cs more spelt others =>
    obtain ⟨key, j⟩ := member
    rw [List.length_append, List.length_cons] at enough
    obtain ⟨start, named, valued, left, opened, text, colon, read, space⟩ :=
      h.member (more ++ '\x7d' :: rest) (.inl rfl) spelt (by omega)
    rw [List.append_assoc, List.cons_append]
    simp only [readMembers, opened, text, colon, read, space]
    rw [h.members _ rest others (by omega), List.reverse_cons, List.append_assoc]
    rfl

theorem SpellsMembers.head {members : List (String × Json)} {cs : List Char}
    (h : SpellsMembers members cs) (rest : List Char) :
    ∃ more, skipSpace (cs ++ rest) = '"' :: more := by
  have first {member : String × Json} {cs : List Char} (spelt : SpellsMember member cs)
      (rest : List Char) : ∃ more, skipSpace (cs ++ rest) = '"' :: more := by
    obtain @⟨_, _, before, name, between, cs, hbefore, ⟨_⟩, -, -⟩ := spelt
    rw [List.append_assoc, List.append_assoc, List.append_assoc, skipSpace_append hbefore,
      List.cons_append, skipSpace_cons (by decide)]
    exact ⟨_, rfl⟩
  cases h with
  | last spelt => exact first spelt rest
  | cons spelt _ =>
    rw [List.append_assoc]
    exact first spelt _

theorem ReadsAt.value_succ {fuel : Nat} (h : ReadsAt fuel) {j : Json} {cs : List Char}
    (rest : List Char) (spelt : Spells j cs) (enough : 2 * cs.length ≤ fuel + 1)
    (closed : Closed rest) : readValue (fuel + 1) (cs ++ rest) = .value (ofJson j) rest := by
  cases spelt with
  | null => rfl
  | boolTrue => rfl
  | boolFalse => rfl
  | number spelt => exact readValue_number fuel spelt closed
  | text spelt =>
    obtain ⟨tail, rfl, read⟩ := readText_spells spelt rest
    exact read
  | @emptyList space blank =>
    have inside : skipSpace (space ++ ']' :: rest) = ']' :: rest := by
      rw [skipSpace_append blank, skipSpace_cons (by decide)]
    rw [List.cons_append, List.append_assoc, readValue, skipSpace_cons (by decide)]
    simp only [List.singleton_append, inside]
    rfl
  | @list items cs spelt =>
    obtain ⟨c, more, inside, open'⟩ := spelt.head (']' :: rest)
    have read := h.items [] rest spelt (by simp at enough; omega)
    rw [← readItems_skipSpace, inside] at read
    rw [List.cons_append, List.append_assoc, readValue, skipSpace_cons (by decide)]
    simp only [List.singleton_append, inside, if_true]
    split
    · next same => exact absurd (List.cons.inj same).1 open'
    · exact read
  | @emptyObject space blank =>
    have inside : skipSpace (space ++ '\x7d' :: rest) = '\x7d' :: rest := by
      rw [skipSpace_append blank, skipSpace_cons (by decide)]
    rw [List.cons_append, List.append_assoc, readValue, skipSpace_cons (by decide)]
    simp only [List.singleton_append, inside]
    rfl
  | @object members cs spelt =>
    obtain ⟨more, inside⟩ := spelt.head ('\x7d' :: rest)
    have read := h.members [] rest spelt (by simp at enough; omega)
    rw [← readMembers_skipSpace, inside] at read
    rw [List.cons_append, List.append_assoc, readValue, skipSpace_cons (by decide)]
    simp only [List.singleton_append, inside]
    exact read

theorem readsAt (fuel : Nat) : ReadsAt fuel := by
  induction fuel with
  | zero =>
    refine ⟨fun rest spelt enough _ => ?_, fun acc rest _ enough => ?_, fun acc rest _ enough => ?_⟩
    · obtain ⟨c, more, rfl, -, -⟩ := spelt.head
      rw [List.length_cons] at enough
      omega
    · omega
    · omega
  | succ fuel ih => exact ⟨ih.value_succ, ih.items_succ, ih.members_succ⟩

/-- A text of the grammar is read as its tree, without faults. -/
theorem Source.read_spells {j : Json} {cs : List Char} (h : Spells j cs) :
    Source.read (String.ofList cs) = (ofJson j, true) := by
  have closed : Closed [] := fun _ none => nomatch none
  have read := (readsAt (2 * cs.length + 2)).value [] h (Nat.le_add_right _ _) closed
  rw [List.append_nil] at read
  simp only [Source.read, String.toList_ofList, read]
  rfl

theorem parse_spells {j : Json} {cs : List Char} (h : Spells j cs) {levels : Nat}
    (shallow : depth j ≤ levels) : parse levels (String.ofList cs) = .ok j := by
  rw [parse, Source.read_spells h]
  dsimp only
  rw [Source.strict_ofJson j levels shallow]
  rfl

theorem Spells.unique {j j' : Json} {cs : List Char} (h : Spells j cs) (h' : Spells j' cs) :
    j = j' := by
  have first := parse_spells h (Nat.le_max_left (depth j) (depth j'))
  have second := parse_spells h' (Nat.le_max_right (depth j) (depth j'))
  exact Except.ok.inj (first.symm.trans second)

end ByteSchema.Json
