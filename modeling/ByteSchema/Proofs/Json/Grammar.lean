import ByteSchema.Json.Basic
import ByteSchema.Number.Numeral

/-!
# The grammar of JSON texts

`Spells j cs` says that `cs` is a text of RFC 8259 for the tree `j`. Of the numbers only integers
have a text here, so a tree with a double in it has none.
-/

namespace ByteSchema.Json

/-! ### White space -/

def Blank (cs : List Char) : Prop := ∀ c ∈ cs, c = ' ' ∨ c = '\n' ∨ c = '\t' ∨ c = '\r'

theorem Blank.nil : Blank [] := fun _ none => nomatch none

/-! ### Numbers -/

/-- Decimal digits without a zero in front of others. -/
structure Decimal (n : Nat) (cs : List Char) : Prop where
  value : Numeral.natural? 10 cs = some n
  lead : cs = ['0'] ∨ cs.head? ≠ some '0'

inductive SpellsNumber : Number → List Char → Prop
  | natural {n : UInt64} {cs : List Char} : Decimal n.toNat cs → SpellsNumber (.natural n) cs
  | negative {n : Int64} {m : Nat} {cs : List Char} : n.toInt = -(m : Int) → 0 < m →
      Decimal m cs → SpellsNumber (.negative n) ('-' :: cs)

/-! ### Texts -/

/-- The letters behind a backslash, each with what it stands for. -/
def letters : List (Char × Char) :=
  [('"', '"'), ('\\', '\\'), ('/', '/'), ('b', '\x08'), ('f', '\x0c'), ('n', '\n'), ('r', '\r'),
    ('t', '\t')]

/-- Four digits of base sixteen. -/
inductive Unit (n : Nat) : List Char → Prop
  | digits {a b c d : Char} : Numeral.natural? 16 [a, b, c, d] = some n → Unit n [a, b, c, d]

inductive SpellsChar : Char → List Char → Prop
  | plain {c : Char} : 0x20 ≤ c.toNat → c ≠ '"' → c ≠ '\\' → SpellsChar c [c]
  | letter {e c : Char} : (e, c) ∈ letters → SpellsChar c ['\\', e]
  | unit {c : Char} {cs : List Char} : Unit c.toNat cs → SpellsChar c ('\\' :: 'u' :: cs)
  /-- Two surrogates. -/
  | pair {c : Char} {high low : Nat} {cs cs' : List Char} : high < 0x400 → low < 0x400 →
      c.toNat = 0x10000 + high * 0x400 + low → Unit (0xd800 + high) cs → Unit (0xdc00 + low) cs' →
      SpellsChar c ('\\' :: 'u' :: (cs ++ '\\' :: 'u' :: cs'))

inductive SpellsChars : List Char → List Char → Prop
  | nil : SpellsChars [] []
  | cons {c : Char} {rest cs more : List Char} : SpellsChar c cs → SpellsChars rest more →
      SpellsChars (c :: rest) (cs ++ more)

inductive SpellsText (s : String) : List Char → Prop
  | quoted {cs : List Char} : SpellsChars s.toList cs → SpellsText s ('"' :: (cs ++ ['"']))

/-! ### Values -/

mutual

inductive Spells : Json → List Char → Prop
  | null : Spells .null ['n', 'u', 'l', 'l']
  | boolTrue : Spells (.bool true) ['t', 'r', 'u', 'e']
  | boolFalse : Spells (.bool false) ['f', 'a', 'l', 's', 'e']
  | number {n : Number} {cs : List Char} : SpellsNumber n cs → Spells (.number n) cs
  | text {s : String} {cs : List Char} : SpellsText s cs → Spells (.text s) cs
  | emptyList {space : List Char} : Blank space → Spells (.list []) ('[' :: (space ++ [']']))
  | list {items : List Json} {cs : List Char} : SpellsItems items cs →
      Spells (.list items) ('[' :: (cs ++ [']']))
  | emptyObject {space : List Char} : Blank space →
      Spells (.object []) ('\x7b' :: (space ++ ['\x7d']))
  | object {members : List (String × Json)} {cs : List Char} : SpellsMembers members cs →
      Spells (.object members) ('\x7b' :: (cs ++ ['\x7d']))

/-- A value with white space around. -/
inductive Padded : Json → List Char → Prop
  | intro {j : Json} {before cs after : List Char} : Blank before → Spells j cs → Blank after →
      Padded j (before ++ cs ++ after)

/-- One item or more. -/
inductive SpellsItems : List Json → List Char → Prop
  | last {j : Json} {cs : List Char} : Padded j cs → SpellsItems [j] cs
  | cons {j : Json} {items : List Json} {cs more : List Char} : Padded j cs →
      SpellsItems items more → SpellsItems (j :: items) (cs ++ ',' :: more)

inductive SpellsMember : String × Json → List Char → Prop
  | intro {key : String} {j : Json} {before name between cs : List Char} : Blank before →
      SpellsText key name → Blank between → Padded j cs →
      SpellsMember (key, j) (before ++ name ++ between ++ ':' :: cs)

/-- One member or more. -/
inductive SpellsMembers : List (String × Json) → List Char → Prop
  | last {member : String × Json} {cs : List Char} : SpellsMember member cs →
      SpellsMembers [member] cs
  | cons {member : String × Json} {members : List (String × Json)} {cs more : List Char} :
      SpellsMember member cs → SpellsMembers members more →
      SpellsMembers (member :: members) (cs ++ ',' :: more)

end

/-! ### Depth -/

mutual

/-- How deep lists and objects stand inside each other. -/
def depth : Json → Nat
  | .list items => depthItems items + 1
  | .object members => depthMembers members + 1
  | _ => 0

def depthItems : List Json → Nat
  | [] => 0
  | item :: items => max (depth item) (depthItems items)

def depthMembers : List (String × Json) → Nat
  | [] => 0
  | (_, value) :: members => max (depth value) (depthMembers members)

end

theorem depthItems_le {items : List Json} {n : Nat} :
    depthItems items ≤ n ↔ ∀ j ∈ items, depth j ≤ n := by
  induction items with
  | nil => simp [depthItems]
  | cons item items ih => rw [depthItems, Nat.max_le, ih, List.forall_mem_cons]

theorem depthMembers_le {members : List (String × Json)} {n : Nat} :
    depthMembers members ≤ n ↔ ∀ m ∈ members, depth m.2 ≤ n := by
  induction members with
  | nil => simp [depthMembers]
  | cons member members ih => rw [depthMembers, Nat.max_le, ih, List.forall_mem_cons]

end ByteSchema.Json
