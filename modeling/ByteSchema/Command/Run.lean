import ByteSchema.Command.Arguments
import ByteSchema.Command.Output
import ByteSchema.Command.Render
import ByteSchema.Decode.Decoder
import ByteSchema.Schema.Reader

/-!
# Running the command

`run` takes the words of a command line and the files, and gives the files afterwards, what is
printed and logged, and how it ended.
-/

namespace ByteSchema.Command

namespace Session

def readSchema (files : Files) (path : String) : Except Error Schema :=
  match files.readText path with
  | .ok text => Schema.parse text
  | .error fault => .error (.fileRead path fault.message)

def loadSchema (path : String) : Session Schema := do
  match readSchema (← files) path with
  | .ok schema =>
    note .debug (s!"Loaded schema with {schema.spec.length} top-level nodes and " ++
      s!"{schema.templates.length} templates")
    return schema
  | .error e => fail (.ofError s!"Failed to load schema: {path}" e)

/-! ### One input -/

def setting (options : Options) (schema : Schema) : Setting :=
  ⟨schema, options.config, Registry.builtins⟩

def interruptOf (input : String) : Halt → Interrupt
  | .failed e => .failed (.ofError s!"Failed to decode: {input}" e)
  | .overflow => .overflow
  | .exhausted => .exhausted

def decodeInput (options : Options) (schema : Schema) (input : String) : Session Record := do
  note .trace s!"Reading {input}"
  let data ← match (← files).read input with
    | .ok data => pure data
    | .error fault => fail ⟨s!"Failed to read input file: {input}", [fault.message]⟩
  let outcome := decode (setting options schema) data
  noteAll outcome.log
  match outcome.result with
  | .error halt => throw (interruptOf input halt)
  | .ok record =>
    let reported := outcome.log.diagnostics.length
    count fun t => { t with decoded := t.decoded + 1, diagnostics := t.diagnostics + reported }
    note .debug (s!"Decoded {input} ({data.length} bytes, {record.length} fields, " ++
      s!"{reported} diagnostics)")
    return record

def process (options : Options) (schema : Schema) (input : String) (headed : Bool) :
    Session Unit := do
  let record ← decodeInput options schema input
  deliver options input (render options.format record) headed

def runFile (options : Options) (schema : Schema) (path : String) : Session Unit := do
  match (← files).find? path with
  | none => fail ⟨s!"Input file does not exist: {path}", []⟩
  | some .directory => fail ⟨s!"Input path is not a file: {path}", []⟩
  | some (.file _) =>
    process options schema path false
    if options.output.isSome && !options.dryRun then summarize

/-! ### A directory -/

def isHidden (name : String) : Bool := name.toList.head? = some '.'

/-- The ending of the name is the wanted one but for the case of ASCII letters. Dots before the
wanted ending do not count. -/
def hasExtension (wanted name : String) : Bool :=
  match FilePath.extension? name with
  | some ending =>
    ending.toList.map Char.toLower = (wanted.toList.dropWhile (· = '.')).map Char.toLower
  | none => false

def isFiltered (options : Options) (name : String) : Bool :=
  match options.extension with
  | some wanted => !hasExtension wanted name
  | none => false

/-- A failure is logged and counted and ends here. -/
def rescue (path : String) : Interrupt → Session Unit
  | .failed failure => do
    note .warn s!"Error decoding {path}: {failure.inLine}"
    count fun t => { t with failed := t.failed + 1 }
  | interrupt => throw interrupt

/-- One file of a directory. -/
def processEntry (options : Options) (schema : Schema) (path name : String) : Session Unit := do
  if isHidden name then return
  if isFiltered options name then
    note .trace s!"Skipping {path}: extension filter"
  else
    note .debug s!"Decoding: {path}"
    try process options schema path true
    catch interrupt => rescue path interrupt

/-- The files below a directory by name, each directory's own in place of its name, down to
`levels` directories. A directory is listed when it is reached. -/
def visit (act : String → String → Session Unit) : Nat → String → Location → Session Unit
  | 0, _, _ => pure ()
  | levels + 1, path, location => do
    ((← files).names location).forM fun name => do
      let inner := FilePath.join path name
      match (← files).entryAt? (location ++ [name]) with
      | some .directory => visit act levels inner (location ++ [name])
      | some (.file _) => act inner name
      | none => pure ()

/-- More directories than can lie inside each other, those counted that the run makes. -/
def levels (options : Options) (files : Files) : Nat :=
  files.height + files.here.length + (FilePath.segments (options.output.getD "")).length + 1

def runDirectory (options : Options) (schema : Schema) (path : String) : Session Unit := do
  let files ← files
  match files.locate path, files.find? path with
  | .ok location, some .directory =>
    note .info s!"Scanning directory: {path}"
    visit (processEntry options schema) (levels options files) path location
    summarize
  | _, some (.file _) => fail ⟨s!"Path is not a directory: {path}", []⟩
  | _, _ => fail ⟨s!"Directory does not exist: {path}", []⟩

def program (options : Options) : Session Unit := do
  let schema ← loadSchema options.schema
  match options.input with
  | .file path => runFile options schema path
  | .directory path => runDirectory options schema path

end Session

/-! ### The whole command -/

inductive Ending where
  | success
  | interrupted (i : Interrupt)
  | misused (f : UsageFault)

def Ending.status : Ending → UInt32
  | success => 0
  | interrupted (.failed _) => 1
  | misused _ => 2
  | interrupted .overflow => 101
  | interrupted .exhausted => 134

/-- What a command leaves. -/
structure Report where
  ending : Ending
  printed : List String
  notes : List Note
  files : Files

/-- The text on standard output, each printed text with a line end. -/
def Report.output (r : Report) : String := String.join (r.printed.map (· ++ "\n"))

/-- Warnings and errors are always shown, less weighty notes with every further `-v`. -/
def isShown (verbosity : Nat) (n : Note) : Bool := n.level.rank ≤ verbosity + 1

def Options.run (options : Options) (files : Files) : Report :=
  let report (ending : Ending) (s : Progress) : Report :=
    ⟨ending, s.printed.reverse, s.notes.reverse.filter (isShown options.verbosity), s.files⟩
  match (Session.program options).run (.initial files) with
  | .ok () s => report .success s
  | .error interrupt s => report (.interrupted interrupt) s

def versionLine : String := "binspec 0.1.0"

def helpLines : List String :=
  ["Decode binary files with declarative schemas",
    "",
    "Usage: binspec [OPTIONS] --schema <SCHEMA> <--file <FILE>|--directory <DIRECTORY>>",
    "",
    "Options:",
    "  -s, --schema <SCHEMA>          JSON schema describing the input format",
    "  -f, --file <FILE>              Path to a single file to decode",
    "  -d, --directory <DIRECTORY>    Path to a directory of files to decode",
    "  -o, --output <OUTPUT>          Output directory for decoded records (default: stdout)",
    "  -v, --verbose...               Verbosity level (-v, -vv, -vvv)",
    "      --format <FORMAT>          Output format: json, compact or fields",
    "  -e, --extension <EXTENSION>    Only decode files with this extension in directory mode",
    "      --max-depth <MAX_DEPTH>    Maximum schema nesting depth (0 = unlimited)",
    "      --strict-functions         Fail on calls to unregistered functions",
    "      --byte-order <BYTE_ORDER>  Override the schema's byte order: little or big",
    "      --dry-run                  Don't write files, just show what would be written",
    "      --force                    Overwrite existing files without prompting",
    "  -h, --help                     Print help",
    "  -V, --version                  Print version"]

def run (words : List String) (files : Files) : Report :=
  match Options.parse words with
  | .ok options => options.run files
  | .error .help => ⟨.success, helpLines, [], files⟩
  | .error .version => ⟨.success, [versionLine], [], files⟩
  | .error (.fault f) => ⟨.misused f, [], [], files⟩

end ByteSchema.Command
