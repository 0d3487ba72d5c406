import ByteSchema.Text.Split

/-!
# Path texts

Names separated by slashes, as they are written on a command line and shown in messages.
-/

namespace ByteSchema.FilePath

def segments (path : String) : List String :=
  (Text.splitOn '/' path.toList).map String.ofList

def isRooted (path : String) : Bool := path.toList.head? = some '/'

/-- The path of `name` in a directory. -/
def join (directory name : String) : String :=
  if directory.toList.getLast? = some '/' then directory ++ name else directory ++ "/" ++ name

/-- The last name. -/
def fileName (path : String) : String := (segments path).getLastD ""

/-- What stands after the last dot of a name, unless the dot comes first. -/
def extension? (name : String) : Option String :=
  match Text.splitOnce '.' name.toList.reverse with
  | (_, none) | (_, some []) => none
  | (ending, some (_ :: _)) => some (String.ofList ending.reverse)

/-- The reversed text of a directory without the slashes and the single dots that it ends in. -/
def bareReversed : List Char → List Char
  | ['/'] => ['/']
  | '/' :: rest => bareReversed rest
  | '.' :: '/' :: rest => bareReversed ('/' :: rest)
  | cs => cs

/-- The path without what it ends in that does not change the directory it names. -/
def bare (directory : String) : String :=
  String.ofList (bareReversed directory.toList.reverse).reverse

end ByteSchema.FilePath
