/-!
# Byte order
-/

namespace ByteSchema

/-- The end of an integer that comes first. -/
inductive ByteOrder where
  | little
  | big
  deriving DecidableEq

namespace ByteOrder

def name : ByteOrder → String
  | little => "little"
  | big => "big"

end ByteOrder

end ByteSchema
