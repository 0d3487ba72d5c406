import ByteSchema.Json.Basic

/-!
# JSON texts

`Json.compact` writes no space at all, `Json.pretty` one line per item, two spaces deeper than the
bracket around it. Texts escape the quote, the backslash and what is below the space, and nothing
else. A double that is not finite is written as `null`.
-/

namespace ByteSchema.Json

/-- Two digits of base sixteen. -/
def hexPair (n : Nat) : List Char := [Nat.digitChar (n / 16), Nat.digitChar (n % 16)]

def escaped (c : Char) : List Char :=
  if c = '"' then ['\\', '"']
  else if c = '\\' then ['\\', '\\']
  else if c = '\n' then ['\\', 'n']
  else if c = '\r' then ['\\', 'r']
  else if c = '\t' then ['\\', 't']
  else if c.toNat = 8 then ['\\', 'b']
  else if c.toNat = 12 then ['\\', 'f']
  else if c.toNat < 0x20 then ['\\', 'u', '0', '0'] ++ hexPair c.toNat
  else [c]

def quoted (s : String) : List Char := '"' :: s.toList.flatMap escaped ++ ['"']

def numberText : Number → List Char
  | .natural n => (toString n.toNat).toList
  | .negative n => (toString n.toInt).toList
  | .float x => if x.isFinite then (numberLayout.write x).toList else ['n', 'u', 'l', 'l']

def leafText : Json → List Char
  | .null => ['n', 'u', 'l', 'l']
  | .bool true => ['t', 'r', 'u', 'e']
  | .bool false => ['f', 'a', 'l', 's', 'e']
  | .number n => numberText n
  | .text s => quoted s
  | .list _ => ['[', ']']
  | .object _ => ['\x7b', '\x7d']

/-! ### On one line

Each function puts its text in front of `rest`. -/

mutual

def compactAppend (rest : List Char) : Json → List Char
  | .list (item :: items) => '[' :: compactAppend (compactItems (']' :: rest) items) item
  | .object ((key, value) :: members) =>
    '\x7b' :: (quoted key ++
      ':' :: compactAppend (compactMembers ('\x7d' :: rest) members) value)
  | leaf => leafText leaf ++ rest

/-- The items after the first. -/
def compactItems (rest : List Char) : List Json → List Char
  | [] => rest
  | item :: items => ',' :: compactAppend (compactItems rest items) item

def compactMembers (rest : List Char) : List (String × Json) → List Char
  | [] => rest
  | (key, value) :: members =>
    ',' :: (quoted key ++ ':' :: compactAppend (compactMembers rest members) value)

end

def compact (j : Json) : String := String.ofList (compactAppend [] j)

/-! ### One item a line -/

/-- The start of a line at a depth. -/
def newLine (depth : Nat) : List Char := '\n' :: List.replicate (2 * depth) ' '

mutual

def prettyAppend (depth : Nat) (rest : List Char) : Json → List Char
  | .list (item :: items) =>
    '[' :: (newLine (depth + 1) ++
      prettyAppend (depth + 1)
        (prettyItems (depth + 1) (newLine depth ++ ']' :: rest) items) item)
  | .object ((key, value) :: members) =>
    '\x7b' :: (newLine (depth + 1) ++ quoted key ++ ':' :: ' ' ::
      prettyAppend (depth + 1)
        (prettyMembers (depth + 1) (newLine depth ++ '\x7d' :: rest) members) value)
  | leaf => leafText leaf ++ rest

def prettyItems (depth : Nat) (rest : List Char) : List Json → List Char
  | [] => rest
  | item :: items =>
    ',' :: (newLine depth ++ prettyAppend depth (prettyItems depth rest items) item)

def prettyMembers (depth : Nat) (rest : List Char) : List (String × Json) → List Char
  | [] => rest
  | (key, value) :: members =>
    ',' :: (newLine depth ++ quoted key ++ ':' :: ' ' ::
      prettyAppend depth (prettyMembers depth rest members) value)

end

def pretty (j : Json) : String := String.ofList (prettyAppend 0 [] j)

end ByteSchema.Json
