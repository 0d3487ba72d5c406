import ByteSchema.Table
import ByteSchema.Text.Sorted

/-!
# File trees

What is found where: a file with its bytes, or a directory. The root is a directory always.
-/

namespace ByteSchema

/-- The names from the root down to a file or a directory; none for the root itself. -/
abbrev Location := List String

inductive Entry where
  | file (data : List UInt8)
  | directory
  deriving DecidableEq

structure Files where
  /-- The directory that relative paths start from. -/
  here : Location
  /-- Each location once. -/
  entries : List (Location × Entry)

namespace Files

def entryAt? (files : Files) (location : Location) : Option Entry :=
  if location = [] then some .directory else files.entries.lookup location

def put (files : Files) (location : Location) (entry : Entry) : Files :=
  { files with entries := Table.insert files.entries location entry }

/-- The last name of a location directly inside the directory. -/
def nameWithin : Location → Location → Option String
  | [], [name] => some name
  | a :: directory, b :: location => if a = b then nameWithin directory location else none
  | _, _ => none

/-- The names in a directory, sorted. -/
def names (files : Files) (directory : Location) : List String :=
  Text.sorted (files.entries.filterMap fun entry => nameWithin directory entry.1)

/-- The length of the longest location. -/
def height (files : Files) : Nat :=
  files.entries.foldl (fun n entry => max n entry.1.length) 0

/-- The files that are not the same in `before`. -/
def changes (before files : Files) : List (Location × List UInt8) :=
  files.entries.filterMap fun (location, entry) =>
    match entry with
    | .file data => if before.entryAt? location = some entry then none else some (location, data)
    | .directory => none

end Files

end ByteSchema
