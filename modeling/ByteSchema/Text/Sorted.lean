/-!
# Sorted names
-/

namespace ByteSchema.Text

/-- Puts a name before the first one that is not smaller. -/
def insertSorted (name : String) : List String → List String
  | [] => [name]
  | other :: names =>
    if name ≤ other then name :: other :: names else other :: insertSorted name names

def sorted (names : List String) : List String := names.foldr insertSorted []

end ByteSchema.Text
