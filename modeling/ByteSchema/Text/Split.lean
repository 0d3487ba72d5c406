/-!
# Splitting at a separator
-/

namespace ByteSchema.Text

/-- The texts between the separators, of which there is always one more. -/
def splitOn (separator : Char) : List Char → List (List Char)
  | [] => [[]]
  | c :: cs =>
    if c = separator then [] :: splitOn separator cs
    else
      match splitOn separator cs with
      | [] => [[c]]
      | s :: ss => (c :: s) :: ss

/-- What stands before the first separator, and what after it if there is one. -/
def splitOnce (separator : Char) : List Char → List Char × Option (List Char)
  | [] => ([], none)
  | c :: cs =>
    if c = separator then ([], some cs)
    else
      let (head, rest) := splitOnce separator cs
      (c :: head, rest)

end ByteSchema.Text
