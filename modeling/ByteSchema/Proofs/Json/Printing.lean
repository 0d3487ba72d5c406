import ByteSchema.Json.Printer
import ByteSchema.Proofs.Json.Grammar
import ByteSchema.Proofs.Number.Digits

/-!
# What is printed is a text of the grammar

Both printers put the same tokens in the same order and differ in the white space between them, so
both are `print` in some style. What a style prints for a tree of integers is a text of the tree:
`print_spells`.
-/

namespace ByteSchema.Json

/-! ### Digits -/

theorem head?_toDigits {n : Nat} (h : n ≠ 0) : (Nat.toDigits 10 n).head? ≠ some '0' := by
  induction n using Nat.strongRecOn with
  | ind n ih =>
    rw [Nat.toDigits_eq_if (by decide)]
    split
    · intro zero
      have digit : Nat.digitChar n = '0' := Option.some.inj zero
      exact h (Nat.digitChar_eq_zero.mp digit)
    · next large =>
      have front := ih (n / 10) (by omega) (by omega)
      cases digits : Nat.toDigits 10 (n / 10) with
      | nil => exact absurd digits Nat.toDigits_ne_nil
      | cons c rest =>
        rw [digits] at front
        exact front

theorem decimal_toDigits (n : Nat) : Decimal n (Nat.toDigits 10 n) := by
  constructor
  · exact Numeral.natural?_toDigits n
  · by_cases zero : n = 0
    · rw [zero]
      exact .inl rfl
    · exact .inr (head?_toDigits zero)

/-! ### Leaves -/

theorem unit_control {n : Nat} (h : n < 0x20) : Unit n ('0' :: '0' :: hexPair n) := by
  have all : ∀ n < 0x20, Numeral.natural? 16 ('0' :: '0' :: hexPair n) = some n := by decide
  exact .digits (all n h)

theorem escaped_spells (c : Char) : SpellsChar c (escaped c) := by
  have eq_of_toNat {n : Nat} {d : Char} (h : c.toNat = n) (hd : d.toNat = n) : c = d :=
    Char.toNat_inj.mp (h.trans hd.symm)
  unfold escaped
  split
  · next quote =>
    rw [quote]
    exact .letter (by decide)
  split
  · next backslash =>
    rw [backslash]
    exact .letter (by decide)
  split
  · next line =>
    rw [line]
    exact .letter (by decide)
  split
  · next carriage =>
    rw [carriage]
    exact .letter (by decide)
  split
  · next tab =>
    rw [tab]
    exact .letter (by decide)
  split
  · next back =>
    obtain rfl := eq_of_toNat back (show Char.toNat '\x08' = 8 from rfl)
    exact .letter (by decide)
  split
  · next feed =>
    obtain rfl := eq_of_toNat feed (show Char.toNat '\x0c' = 12 from rfl)
    exact .letter (by decide)
  split
  · next control => exact .unit (unit_control control)
  · next quote backslash _ _ _ _ _ printable =>
    exact .plain (Nat.le_of_not_lt printable) quote backslash

theorem quoted_spells (s : String) : SpellsText s (quoted s) := by
  have chars (cs : List Char) : SpellsChars cs (cs.flatMap escaped) := by
    induction cs with
    | nil => exact .nil
    | cons c rest ih => exact .cons (escaped_spells c) ih
  exact .quoted (chars s.toList)

/-- A number that the grammar has a text for. -/
def Number.whole : Number → Bool
  | .natural _ => true
  | .negative n => n < 0
  | .float _ => false

theorem numberText_spells {n : Number} (h : n.whole = true) : SpellsNumber n (numberText n) := by
  cases n with
  | natural n =>
    rw [numberText, Numeral.toList_toString]
    exact .natural (decimal_toDigits n.toNat)
  | negative n =>
    have below : n.toInt < 0 := Int64.lt_iff_toInt_lt.mp (of_decide_eq_true h)
    obtain ⟨m, hm⟩ := Int.eq_negSucc_of_lt_zero below
    rw [numberText, hm, Numeral.toList_toString_negSucc]
    exact .negative (hm.trans (Int.negSucc_eq m)) (Nat.succ_pos m) (decimal_toDigits (m + 1))
  | float x => cases h

/-! ### Styles -/

/-- The white space of a printed text: before an item at a depth, and after a colon. -/
structure Style where
  line : Nat → List Char
  gap : List Char

structure Style.Blank (style : Style) : Prop where
  line (depth : Nat) : Json.Blank (style.line depth)
  gap : Json.Blank style.gap

namespace Style

def compact : Style := ⟨fun _ => [], []⟩

def pretty : Style := ⟨newLine, [' ']⟩

theorem compact_blank : compact.Blank := ⟨fun _ => .nil, .nil⟩

theorem pretty_blank : pretty.Blank where
  line depth := by
    intro c hc
    obtain rfl | indent := List.mem_cons.mp hc
    · exact .inr (.inl rfl)
    · exact .inl (List.eq_of_mem_replicate indent)
  gap := fun c hc => .inl (List.mem_singleton.mp hc)

variable (style : Style)

mutual

/-- The text of a tree at a depth, in front of `rest`. -/
def print (depth : Nat) (rest : List Char) : Json → List Char
  | .list (item :: items) =>
    '[' :: (style.line (depth + 1) ++ print (depth + 1)
      (printItems (depth + 1) (style.line depth ++ ']' :: rest) items) item)
  | .object ((key, value) :: members) =>
    '\x7b' :: (style.line (depth + 1) ++ quoted key ++ ':' :: (style.gap ++ print (depth + 1)
      (printMembers (depth + 1) (style.line depth ++ '\x7d' :: rest) members) value))
  | leaf => leafText leaf ++ rest

def printItems (depth : Nat) (rest : List Char) : List Json → List Char
  | [] => rest
  | item :: items =>
    ',' :: (style.line depth ++ print depth (printItems depth rest items) item)

def printMembers (depth : Nat) (rest : List Char) : List (String × Json) → List Char
  | [] => rest
  | (key, value) :: members =>
    ',' :: (style.line depth ++ quoted key ++ ':' :: (style.gap ++
      print depth (printMembers depth rest members) value))

end

mutual

theorem print_compact (depth : Nat) (rest : List Char) : ∀ j : Json,
    compact.print depth rest j = compactAppend rest j
  | .null | .bool _ | .number _ | .text _ | .list [] | .object [] => rfl
  | .list (item :: items) => by
    rw [print, print_compact, printItems_compact, compactAppend]
    rfl
  | .object ((key, value) :: members) => by
    rw [print, print_compact, printMembers_compact, compactAppend]
    rfl

theorem printItems_compact (depth : Nat) (rest : List Char) : ∀ items : List Json,
    compact.printItems depth rest items = compactItems rest items
  | [] => rfl
  | item :: items => by
    rw [printItems, print_compact, printItems_compact, compactItems]
    rfl

theorem printMembers_compact (depth : Nat) (rest : List Char) :
    ∀ members : List (String × Json),
      compact.printMembers depth rest members = compactMembers rest members
  | [] => rfl
  | (key, value) :: members => by
    rw [printMembers, print_compact, printMembers_compact, compactMembers]
    rfl

end

mutual

theorem print_pretty (depth : Nat) (rest : List Char) : ∀ j : Json,
    pretty.print depth rest j = prettyAppend depth rest j
  | .null | .bool _ | .number _ | .text _ | .list [] | .object [] => rfl
  | .list (item :: items) => by
    rw [print, print_pretty, printItems_pretty, prettyAppend]
    rfl
  | .object ((key, value) :: members) => by
    rw [print, print_pretty, printMembers_pretty, prettyAppend]
    rfl

theorem printItems_pretty (depth : Nat) (rest : List Char) : ∀ items : List Json,
    pretty.printItems depth rest items = prettyItems depth rest items
  | [] => rfl
  | item :: items => by
    rw [printItems, print_pretty, printItems_pretty, prettyItems]
    rfl

theorem printMembers_pretty (depth : Nat) (rest : List Char) :
    ∀ members : List (String × Json),
      pretty.printMembers depth rest members = prettyMembers depth rest members
  | [] => rfl
  | (key, value) :: members => by
    rw [printMembers, print_pretty, printMembers_pretty, prettyMembers]
    rfl

end

end Style

/-! ### Trees -/

mutual

/-- All numbers in the tree are integers. -/
def whole : Json → Bool
  | .number n => n.whole
  | .list items => wholeItems items
  | .object members => wholeMembers members
  | _ => true

def wholeItems : List Json → Bool
  | [] => true
  | item :: items => whole item && wholeItems items

def wholeMembers : List (String × Json) → Bool
  | [] => true
  | (_, value) :: members => whole value && wholeMembers members

end

namespace Style

variable {style : Style} (blank : style.Blank)
include blank

mutual

theorem print_spells : ∀ (j : Json) (depth : Nat) (rest : List Char), whole j = true →
    ∃ cs, style.print depth rest j = cs ++ rest ∧ Spells j cs
  | .null, _, _, _ => ⟨_, rfl, .null⟩
  | .bool true, _, _, _ => ⟨_, rfl, .boolTrue⟩
  | .bool false, _, _, _ => ⟨_, rfl, .boolFalse⟩
  | .number n, _, _, h => ⟨_, rfl, .number (numberText_spells h)⟩
  | .text s, _, _, _ => ⟨_, rfl, .text (quoted_spells s)⟩
  | .list [], _, _, _ => ⟨_, rfl, .emptyList .nil⟩
  | .object [], _, _, _ => ⟨_, rfl, .emptyObject .nil⟩
  | .list (item :: items), depth, rest, h => by
    obtain ⟨cs, printed, spelt⟩ := (printItems_spells (item :: items) (depth + 1)
      (style.line depth) (']' :: rest) (blank.line depth) h).resolve_left (List.cons_ne_nil _ _)
    rw [printItems] at printed
    refine ⟨'[' :: (cs ++ [']']), ?_, .list spelt⟩
    rw [print, (List.cons.inj printed).2, List.cons_append, List.append_assoc]
    rfl
  | .object (member :: members), depth, rest, h => by
    obtain ⟨cs, printed, spelt⟩ := (printMembers_spells (member :: members) (depth + 1)
      (style.line depth) ('\x7d' :: rest) (blank.line depth) h).resolve_left (List.cons_ne_nil _ _)
    obtain ⟨key, value⟩ := member
    rw [printMembers] at printed
    refine ⟨'\x7b' :: (cs ++ ['\x7d']), ?_, .object spelt⟩
    rw [print, (List.cons.inj printed).2, List.cons_append, List.append_assoc]
    rfl

/-- What follows an item: the end of the list with the space before it, or a comma and more. -/
theorem printItems_spells : ∀ (items : List Json) (depth : Nat) (trail rest : List Char),
    Json.Blank trail → wholeItems items = true → items = [] ∨ ∃ cs,
      style.printItems depth (trail ++ rest) items = ',' :: (cs ++ rest) ∧ SpellsItems items cs
  | [], _, _, _, _, _ => .inl rfl
  | item :: items, depth, trail, rest, htrail, h => by
    obtain ⟨hitem, hitems⟩ := Bool.and_eq_true_iff.mp h
    obtain ⟨cs, printed, spelt⟩ := print_spells item depth
      (style.printItems depth (trail ++ rest) items) hitem
    have line := blank.line depth
    rw [printItems, printed]
    obtain rfl | ⟨more, others, speltMore⟩ := printItems_spells items depth trail rest htrail hitems
    · refine .inr ⟨style.line depth ++ cs ++ trail, ?_, .last (.intro line spelt htrail)⟩
      simp [printItems]
    · refine .inr ⟨style.line depth ++ cs ++ [] ++ ',' :: more, ?_,
        .cons (.intro line spelt .nil) speltMore⟩
      simp [others]

theorem printMembers_spells : ∀ (members : List (String × Json)) (depth : Nat)
    (trail rest : List Char), Json.Blank trail → wholeMembers members = true → members = [] ∨
      ∃ cs, style.printMembers depth (trail ++ rest) members = ',' :: (cs ++ rest) ∧
        SpellsMembers members cs
  | [], _, _, _, _, _ => .inl rfl
  | (key, value) :: members, depth, trail, rest, htrail, h => by
    obtain ⟨hvalue, hmembers⟩ := Bool.and_eq_true_iff.mp h
    obtain ⟨cs, printed, spelt⟩ := print_spells value depth
      (style.printMembers depth (trail ++ rest) members) hvalue
    have line := blank.line depth
    have name := quoted_spells key
    rw [printMembers, printed]
    obtain rfl | ⟨more, others, speltMore⟩ :=
      printMembers_spells members depth trail rest htrail hmembers
    · refine .inr ⟨style.line depth ++ quoted key ++ [] ++ ':' :: (style.gap ++ cs ++ trail), ?_,
        .last (.intro line name .nil (.intro blank.gap spelt htrail))⟩
      simp [printMembers]
    · refine .inr ⟨style.line depth ++ quoted key ++ [] ++ ':' :: (style.gap ++ cs ++ []) ++
        ',' :: more, ?_, .cons (.intro line name .nil (.intro blank.gap spelt .nil)) speltMore⟩
      simp [others]

end

end Style

theorem compact_spells {j : Json} (h : whole j = true) : Spells j j.compact.toList := by
  obtain ⟨cs, printed, spelt⟩ := Style.print_spells Style.compact_blank j 0 [] h
  rw [Style.print_compact, List.append_nil] at printed
  rw [compact, String.toList_ofList, printed]
  exact spelt

theorem pretty_spells {j : Json} (h : whole j = true) : Spells j j.pretty.toList := by
  obtain ⟨cs, printed, spelt⟩ := Style.print_spells Style.pretty_blank j 0 [] h
  rw [Style.print_pretty, List.append_nil] at printed
  rw [pretty, String.toList_ofList, printed]
  exact spelt

end ByteSchema.Json
