import ByteSchema.Command.Options
import ByteSchema.Command.Session
import ByteSchema.Files.Access

/-!
# Where records go

Without an output directory a record is printed. With one it goes to a file of its own, named
after the input; a file that is there is kept unless the options say otherwise.
-/

namespace ByteSchema.Command

/-- The file for the record of an input. -/
def target (directory input : String) : String :=
  FilePath.join directory (FilePath.fileName input ++ ".json")

/-- Writes `content` to a file that must not be there, unless by `force`. -/
def create (files : Files) (force : Bool) (path content : String) : Except Failure Files :=
  if (files.find? path).isSome && !force then
    .error ⟨s!"File already exists: {path} (use --force to overwrite)", []⟩
  else
    (files.write path content).mapError fun fault =>
      ⟨s!"Failed to create file: {path}", [fault.message]⟩

/-- The files after `content` has been written to `path` in the output directory, or after what
was done up to a failure. -/
def store (files : Files) (force : Bool) (directory path content : String) :
    Files × Except Failure Unit :=
  let parent := FilePath.bare directory
  let (files, made) := files.makeDirectory parent
  match made with
  | .error fault => (files, .error ⟨s!"Failed to create directory: {parent}", [fault.message]⟩)
  | .ok () =>
    match create files force path (content ++ "\n") with
    | .error failure => (files, .error failure)
    | .ok files => (files, .ok ())

namespace Session

/-- Writes a file. That it cannot be written is logged and no failure. -/
def save (options : Options) (directory path content : String) : Session Unit := do
  let (files, stored) := store (← files) options.force directory path content
  setFiles files
  match stored with
  | .ok () =>
    print s!"Wrote {path}"
    count fun t => { t with written := t.written + 1 }
  | .error failure => note .error s!"Failed to write {path}: {failure.inLine}"

/-- What would be written, with its content at any verbosity. -/
def announce (options : Options) (path content : String) : Session Unit := do
  print s!"Would write: {path}"
  if 0 < options.verbosity then
    print "---"
    print content
    print "---"

/-- Prints or writes the content for an input; among several it is printed under a header. -/
def deliver (options : Options) (input content : String) (headed : Bool) : Session Unit := do
  match options.output with
  | none =>
    if headed then print s!"==> {input} <=="
    print content
  | some directory =>
    let path := target directory input
    if options.dryRun then announce options path content
    else save options directory path content

end Session

end ByteSchema.Command
