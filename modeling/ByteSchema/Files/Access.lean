import ByteSchema.Files.Path
import ByteSchema.Files.Tree

/-!
# Reading and writing by path

A path is followed name by name. An empty name and `.` stay in the directory, `..` goes up, and
every name but the last must be that of a directory.
-/

namespace ByteSchema

inductive FileFault where
  | missing
  | alreadyThere
  | notDirectory
  | isDirectory
  | notText

def FileFault.message : FileFault → String
  | missing => "No such file or directory (os error 2)"
  | alreadyThere => "File exists (os error 17)"
  | notDirectory => "Not a directory (os error 20)"
  | isDirectory => "Is a directory (os error 21)"
  | notText => "stream did not contain valid UTF-8"

namespace Files

/-- The location of a name in a directory. -/
def within (directory : Location) (name : String) : Location :=
  if name = "" ∨ name = "." then directory
  else if name = ".." then directory.dropLast
  else directory ++ [name]

/-- The location of a name in what must be a directory. -/
def enter (files : Files) (location : Location) (name : String) : Except FileFault Location :=
  match files.entryAt? location with
  | some .directory => .ok (within location name)
  | some (.file _) => .error .notDirectory
  | none => .error .missing

def start (files : Files) (path : String) : Location :=
  if FilePath.isRooted path then [] else files.here

/-- The location that a path leads to, whether or not there is something. -/
def locate (files : Files) (path : String) : Except FileFault Location :=
  (FilePath.segments path).foldlM files.enter (files.start path)

def find? (files : Files) (path : String) : Option Entry :=
  match files.locate path with
  | .ok location => files.entryAt? location
  | .error _ => none

def read (files : Files) (path : String) : Except FileFault (List UInt8) := do
  match files.entryAt? (← files.locate path) with
  | some (.file data) => return data
  | some .directory => throw .isDirectory
  | none => throw .missing

def encode (text : String) : List UInt8 := text.toUTF8.data.toList

def decodeText? (data : List UInt8) : Option String := String.fromUTF8? data.toByteArray

def readText (files : Files) (path : String) : Except FileFault String := do
  match decodeText? (← files.read path) with
  | some text => return text
  | none => throw .notText

/-- Makes the directories named, one in the other, where they are not there. Once one was `made`,
a file in the way is met when its own name is due. What was made before that stays. -/
def makeWithin (files : Files) (made : Bool) (location : Location) :
    List String → Files × Except FileFault Unit
  | [] => (files, .ok ())
  | name :: rest =>
    let inner := within location name
    match files.entryAt? inner with
    | some .directory => makeWithin files made inner rest
    | some (.file _) => (files, .error (if made || rest.isEmpty then .alreadyThere else .notDirectory))
    | none => makeWithin (files.put inner .directory) true inner rest

def makeDirectory (files : Files) (path : String) : Files × Except FileFault Unit :=
  files.makeWithin false (files.start path) (FilePath.segments path)

/-- Gives a file new contents, whatever it held before. -/
def write (files : Files) (path text : String) : Except FileFault Files := do
  let location ← files.locate path
  match files.entryAt? location with
  | some .directory => throw .isDirectory
  | _ => return files.put location (.file (encode text))

end Files

end ByteSchema
