import ByteSchema.Json.Numeral

/-!
# Reading JSON texts

`Source.read` turns any text into a tree. A tree whose text stops at a fault has this fault as its
last leaf or as its last ending, so whoever goes through the tree in order meets first what comes
first in the text.
-/

namespace ByteSchema.Json

def isSpace (c : Char) : Bool := c = ' ' || c = '\n' || c = '\t' || c = '\r'

def skipSpace (cs : List Char) : List Char := cs.dropWhile isSpace

/-! ### Texts -/

/-- A character of a text, or the sixteen bits of an escape. -/
inductive Piece where
  | char (c : Char)
  | unit (n : Nat)

namespace Piece

def isHigh (n : Nat) : Bool := 0xd800 ≤ n && n < 0xdc00

def isLow (n : Nat) : Bool := 0xdc00 ≤ n && n < 0xe000

/-- The characters of the pieces, put in front of `acc` in reverse; two surrogates make one
character, and there is none for a single one. -/
def join (acc : List Char) : List Piece → Option (List Char)
  | [] => some acc.reverse
  | .char c :: rest => join (c :: acc) rest
  | .unit h :: rest =>
    if isLow h then none
    else if isHigh h then
      match rest with
      | .unit l :: rest =>
        if isLow l then
          join (Char.ofNat (0x10000 + (h - 0xd800) * 0x400 + (l - 0xdc00)) :: acc) rest
        else none
      | _ => none
    else join (Char.ofNat h :: acc) rest

/-- A surrogate that still waits for the other half. -/
def dropHigh : List Piece → List Piece
  | .unit h :: rest => if isHigh h then rest else .unit h :: rest
  | pieces => pieces

end Piece

def hexUnit? (a b c d : Char) : Option Nat := Numeral.natural? 16 [a, b, c, d]

/-- The character that an escape of one letter stands for. -/
def escape? (c : Char) : Option Char :=
  if c = '"' ∨ c = '\\' ∨ c = '/' then some c
  else if c = 'b' then some '\x08'
  else if c = 'f' then some '\x0c'
  else if c = 'n' then some '\n'
  else if c = 'r' then some '\r'
  else if c = 't' then some '\t'
  else none

/-- The pieces of a text in reverse, and the rest after the closing quote. -/
def pieces (acc : List Piece) : List Char → List Piece × Except Fault (List Char)
  | [] => (acc, .error .truncated)
  | '"' :: rest => (acc, .ok rest)
  | '\\' :: 'u' :: a :: b :: c :: d :: rest =>
    match hexUnit? a b c d with
    | some n => pieces (.unit n :: acc) rest
    | none => (acc, .error .malformed)
  | '\\' :: 'u' :: rest =>
    (acc, .error (if 4 ≤ (String.ofList rest).utf8ByteSize then .malformed else .truncated))
  | '\\' :: e :: rest =>
    match escape? e with
    | some c => pieces (.char c :: acc) rest
    | none => (acc, .error .malformed)
  | ['\\'] => (acc, .error .truncated)
  | c :: rest =>
    if c.toNat < 0x20 then (acc, .error .malformed) else pieces (.char c :: acc) rest

/-- A text after its opening quote. -/
def readText (cs : List Char) : Reading :=
  match pieces [] cs with
  | (found, .ok rest) =>
    match Piece.join [] found.reverse with
    | some chars => .value (.text (String.ofList chars)) rest
    | none => .value (.fault .malformed none) rest
  | (found, .error f) =>
    match Piece.join [] (Piece.dropHigh found).reverse with
    | some _ => .broken f
    | none => .stop (.fault .malformed (some f))

/-! ### Values -/

/-- The rest of a word whose first letter was read. -/
def readWord (value : Source) : List Char → List Char → Reading
  | [], rest => .value value rest
  | _ :: _, [] => .misspelt .truncated
  | w :: ws, c :: cs => if w = c then readWord value ws cs else .misspelt .malformed

/-- Something else was due here. -/
def missing : List Char → Fault
  | [] => .truncated
  | _ => .malformed

mutual

/-- A value; `fuel` is twice the length of the text or more. -/
def readValue : Nat → List Char → Reading
  | 0, _ => .broken .malformed
  | fuel + 1, cs =>
    match skipSpace cs with
    | [] => .broken .truncated
    | c :: rest =>
      if c = '[' then
        match skipSpace rest with
        | ']' :: rest => .value (.list [] none) rest
        | rest => readItems fuel [] rest
      else if c = '\x7b' then
        match skipSpace rest with
        | '\x7d' :: rest => .value (.object [] none) rest
        | rest => readMembers fuel [] rest
      else if c = '"' then readText rest
      else if c = '-' then Numeral.readNumber true rest
      else if Numeral.isDigit c then Numeral.readNumber false (c :: rest)
      else if c = 'n' then readWord .null ['u', 'l', 'l'] rest
      else if c = 't' then readWord (.bool true) ['r', 'u', 'e'] rest
      else if c = 'f' then readWord (.bool false) ['a', 'l', 's', 'e'] rest
      else .broken .malformed

/-- Items of a list up to its end, after those in `acc`. -/
def readItems : Nat → List Source → List Char → Reading
  | 0, acc, _ => .stop (.list acc.reverse (some .malformed))
  | fuel + 1, acc, cs =>
    match readValue fuel cs with
    | .stop s => .stop (.list (acc.reverse ++ [s]) none)
    | .value s rest =>
      match skipSpace rest with
      | ']' :: rest => .value (.list (acc.reverse ++ [s]) none) rest
      | ',' :: rest => readItems fuel (s :: acc) rest
      | rest => .stop (.list (acc.reverse ++ [s]) (some (missing rest)))

/-- Members of an object up to its end, after those in `acc`. -/
def readMembers : Nat → List (Source × Source) → List Char → Reading
  | 0, acc, _ => .stop (.object acc.reverse (some .malformed))
  | fuel + 1, acc, cs =>
    match skipSpace cs with
    | '"' :: rest =>
      match readText rest with
      | .stop key => .stop (.object (acc.reverse ++ [(key, .broken .malformed)]) none)
      | .value key rest =>
        match skipSpace rest with
        | ':' :: rest =>
          match readValue fuel rest with
          | .stop s => .stop (.object (acc.reverse ++ [(key, s)]) none)
          | .value s rest =>
            match skipSpace rest with
            | '\x7d' :: rest => .value (.object (acc.reverse ++ [(key, s)]) none) rest
            | ',' :: rest => readMembers fuel ((key, s) :: acc) rest
            | rest => .stop (.object (acc.reverse ++ [(key, s)]) (some (missing rest)))
        | rest => .stop (.object (acc.reverse ++ [(key, .broken (missing rest))]) none)
    | rest => .stop (.object (acc.reverse ++ [(.broken (missing rest), .broken .malformed)]) none)

end

namespace Source

/-- The tree of a text, and whether nothing but space comes after it. -/
def read (text : String) : Source × Bool :=
  let cs := text.toList
  match readValue (2 * cs.length + 2) cs with
  | .stop s => (s, true)
  | .value s rest => (s, (skipSpace rest).isEmpty)

end Source

/-- The value of a text, in which lists and objects stand at most `levels` deep. -/
def parse (levels : Nat) (text : String) : Except Fault Json := do
  let (source, ended) := Source.read text
  let j ← source.strict levels
  if ended then return j else throw .malformed

end ByteSchema.Json
