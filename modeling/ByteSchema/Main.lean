import ByteSchema.Command.Run

/-!
# The command on real files

Reads what a command line can refer to, runs the command on it and carries out the changes.
-/

namespace ByteSchema.Command.Real

def pathOf (location : Location) : String := "/" ++ "/".intercalate location

def listing (location : Location) : IO (List String) := do
  let entries ← ((← IO.currentDir) / pathOf location).readDir
  return entries.toList.map fun e => e.fileName

def look (location : Location) : IO (Option Entry) := do
  try
    let data ← IO.FS.readBinFile (pathOf location)
    return some (.file data.data.toList)
  catch _ =>
    try
      let _ ← listing location
      return some .directory
    catch _ => return none

def load (files : Files) (location : Location) : IO Files := do
  match ← look location with
  | some entry => return files.put location entry
  | none => return files

/-- What lies along a path, with the location that it leads to. -/
def loadPath (files : Files) (path : String) : IO (Files × Location) :=
  (FilePath.segments path).foldlM (fun (files, location) name => do
    let inner := Files.within location name
    return (← load files inner, inner)) (files, files.start path)

/-- What lies in a directory. -/
def loadNames (files : Files) (location : Location) : IO Files := do
  match files.entryAt? location with
  | some .directory =>
    (← listing location).foldlM (fun files name => load files (location ++ [name])) files
  | _ => return files

def isLink (location : Location) : IO Bool := do
  return (← ((← IO.currentDir) / pathOf location).symlinkMetadata).type matches .symlink

/-- What lies anywhere below a directory. Links to directories are not followed. -/
partial def loadBelow (files : Files) (location : Location) : IO Files := do
  let files ← loadNames files location
  (files.names location).foldlM (fun files name => do
    let inner := location ++ [name]
    match files.entryAt? inner with
    | some .directory => if ← isLink inner then return files else loadBelow files inner
    | _ => return files) files

def loadAll (options : Options) : IO Files := do
  let here := (FilePath.segments (← IO.currentDir).toString).filter (· ≠ "")
  let above := (List.range here.length).map fun n => (here.take (n + 1), Entry.directory)
  let files : Files := ⟨here, above⟩
  let (files, _) ← loadPath files options.schema
  let files ← match options.output with
    | some path => do
      let (files, location) ← loadPath files path
      loadNames files location
    | none => pure files
  match options.input with
  | .file path => return (← loadPath files path).1
  | .directory path => do
    let (files, location) ← loadPath files path
    loadBelow files location

def carryOut (before after : Files) : IO Unit := do
  for (location, entry) in after.entries do
    if entry = .directory ∧ before.entryAt? location = none then
      IO.FS.createDirAll (pathOf location)
  for (location, data) in Files.changes before after do
    IO.FS.createDirAll (pathOf location.dropLast)
    IO.FS.writeBinFile (pathOf location) data.toByteArray

end ByteSchema.Command.Real

open ByteSchema Command in
def main (words : List String) : IO UInt32 := do
  let files ← match Options.parse words with
    | .ok options => Real.loadAll options
    | .error _ => pure ⟨[], []⟩
  let report := Command.run words files
  Real.carryOut files report.files
  for note in report.notes do IO.eprintln note.text
  IO.print report.output
  match report.ending with
  | .success => pure ()
  | .interrupted (.failed f) => IO.eprintln s!"Error: {f.report}"
  | .interrupted .overflow => IO.eprintln "attempt to add with overflow"
  | .interrupted .exhausted => IO.eprintln "stack overflow"
  | .misused f => IO.eprintln s!"error: {f.message}"
  return report.ending.status
