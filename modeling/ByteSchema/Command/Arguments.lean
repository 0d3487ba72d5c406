import ByteSchema.Command.Options
import ByteSchema.Number.Numeral
import ByteSchema.Text.Split

/-!
# Reading the command line

Words are read from left to right and add up to what is `Given`. A switch that takes a value finds
it behind `=`, or right behind its letter, or in the next word. The first word that is wrong, or
that asks for help or the version, ends the reading.
-/

namespace ByteSchema.Command

inductive Switch where
  | schema | file | directory | output | verbose | format | extension | maxDepth
  | strictFunctions | byteOrder | dryRun | force | help | version
  deriving DecidableEq

namespace Switch

def ofLetter? : Char → Option Switch
  | 's' => some schema
  | 'f' => some file
  | 'd' => some directory
  | 'o' => some output
  | 'v' => some verbose
  | 'e' => some extension
  | 'h' => some help
  | 'V' => some version
  | _ => none

def name : Switch → String
  | schema => "schema"
  | file => "file"
  | directory => "directory"
  | output => "output"
  | verbose => "verbose"
  | format => "format"
  | extension => "extension"
  | maxDepth => "max-depth"
  | strictFunctions => "strict-functions"
  | byteOrder => "byte-order"
  | dryRun => "dry-run"
  | force => "force"
  | help => "help"
  | version => "version"

def all : List Switch :=
  [schema, file, directory, output, verbose, format, extension, maxDepth, strictFunctions,
    byteOrder, dryRun, force, help, version]

def ofName? (text : String) : Option Switch := all.find? fun s => s.name = text

def takesValue : Switch → Bool
  | schema | file | directory | output | format | extension | maxDepth | byteOrder => true
  | verbose | strictFunctions | dryRun | force | help | version => false

end Switch

inductive UsageFault where
  | unexpected (word : String)
  | repeated (switch : Switch)
  | missingValue (switch : Switch)
  | invalidValue (switch : Switch) (value : String)
  | missing (switch : Switch)
  | conflict (one other : Switch)

def UsageFault.message : UsageFault → String
  | unexpected word => s!"unexpected argument '{word}'"
  | repeated switch => s!"'--{switch.name}' cannot be used more than once"
  | missingValue switch => s!"'--{switch.name}' needs a value"
  | invalidValue switch value => s!"invalid value '{value}' for '--{switch.name}'"
  | missing switch => s!"'--{switch.name}' is required"
  | conflict one other => s!"'--{one.name}' cannot be used with '--{other.name}'"

/-- Why the reading of a command line ends early. -/
inductive Stop where
  | help
  | version
  | fault (f : UsageFault)

/-- What the words so far amount to. -/
structure Given where
  schema : Option String
  file : Option String
  directory : Option String
  output : Option String
  verbosity : Nat
  format : Option Format
  extension : Option String
  maxDepth : Option Nat
  strictFunctions : Bool
  byteOrder : Option ByteOrder
  dryRun : Bool
  force : Bool
  /-- The switch whose value is the next word. -/
  pending : Option Switch
  /-- No word may follow. -/
  closed : Bool

namespace Given

def empty : Given where
  schema := none
  file := none
  directory := none
  output := none
  verbosity := 0
  format := none
  extension := none
  maxDepth := none
  strictFunctions := false
  byteOrder := none
  dryRun := false
  force := false
  pending := none
  closed := false

/-! ### Values -/

def path? (value : String) : Option String := if value = "" then none else some value

def format? : String → Option Format
  | "json" => some .json
  | "compact" => some .compact
  | "fields" => some .fields
  | _ => none

def byteOrder? : String → Option ByteOrder
  | "little" => some .little
  | "big" => some .big
  | _ => none

def depth? (value : String) : Option Nat :=
  match Numeral.unsigned? 10 value.toList with
  | some n => if n < UInt64.size then some n else none
  | none => none

/-- The new content of a field that may be given once. -/
def once {α : Type} (switch : Switch) (old : Option α) (value : String) (new : Option α) :
    Except Stop (Option α) :=
  match old, new with
  | some _, _ => .error (.fault (.repeated switch))
  | none, none => .error (.fault (.invalidValue switch value))
  | none, some a => .ok (some a)

def flagOnce (switch : Switch) (old : Bool) : Except Stop Bool :=
  if old then .error (.fault (.repeated switch)) else .ok true

/-- A switch with its value, which is empty for a switch that takes none. -/
def give (g : Given) (switch : Switch) (value : String) : Except Stop Given :=
  match switch with
  | .schema => do return { g with schema := ← once switch g.schema value (path? value) }
  | .file => do return { g with file := ← once switch g.file value (path? value) }
  | .directory => do return { g with directory := ← once switch g.directory value (path? value) }
  | .output => do return { g with output := ← once switch g.output value (path? value) }
  | .verbose => .ok { g with verbosity := g.verbosity + 1 }
  | .format => do return { g with format := ← once switch g.format value (format? value) }
  | .extension => do return { g with extension := ← once switch g.extension value (some value) }
  | .maxDepth => do return { g with maxDepth := ← once switch g.maxDepth value (depth? value) }
  | .strictFunctions => do
    return { g with strictFunctions := ← flagOnce switch g.strictFunctions }
  | .byteOrder => do
    return { g with byteOrder := ← once switch g.byteOrder value (byteOrder? value) }
  | .dryRun => do return { g with dryRun := ← flagOnce switch g.dryRun }
  | .force => do return { g with force := ← flagOnce switch g.force }
  | .help => .error .help
  | .version => .error .version

/-! ### Words -/

/-- A switch by its name, with what follows an equals sign. -/
def long (g : Given) (word : String) (name : List Char) : Except Stop Given :=
  let (name, value) := Text.splitOnce '=' name
  match Switch.ofName? (String.ofList name), value with
  | none, _ => .error (.fault (.unexpected word))
  | some switch, some value =>
    if switch.takesValue then g.give switch (String.ofList value)
    else .error (.fault (.unexpected word))
  | some switch, none =>
    if switch.takesValue then .ok { g with pending := some switch } else g.give switch ""

/-- Switches by their letters. What follows the letter of one that takes a value is its value. -/
def letters (g : Given) (word : String) : List Char → Except Stop Given
  | [] => .ok g
  | c :: rest =>
    match Switch.ofLetter? c, rest with
    | none, _ => .error (.fault (.unexpected word))
    | some switch, rest =>
      if switch.takesValue then
        match rest with
        | [] => .ok { g with pending := some switch }
        | '=' :: value => g.give switch (String.ofList value)
        | value => g.give switch (String.ofList value)
      else do letters (← g.give switch "") word rest

/-- A word that starts with a hyphen and is more than that. -/
def isSwitch (word : String) : Bool :=
  match word.toList with
  | '-' :: _ :: _ => true
  | _ => false

def add (g : Given) (word : String) : Except Stop Given :=
  match g.closed, g.pending with
  | true, _ => .error (.fault (.unexpected word))
  | false, some switch =>
    if isSwitch word then .error (.fault (.missingValue switch))
    else { g with pending := none }.give switch word
  | false, none =>
    match word.toList with
    | ['-', '-'] => .ok { g with closed := true }
    | '-' :: '-' :: name => g.long word name
    | '-' :: c :: rest => g.letters word (c :: rest)
    | _ => .error (.fault (.unexpected word))

def input (g : Given) : Except Stop Input :=
  match g.file, g.directory with
  | some _, some _ => .error (.fault (.conflict .file .directory))
  | some path, none => .ok (.file path)
  | none, some path => .ok (.directory path)
  | none, none => .error (.fault (.missing .file))

def finish (g : Given) : Except Stop Options :=
  match g.pending, g.schema with
  | some switch, _ => .error (.fault (.missingValue switch))
  | none, none => .error (.fault (.missing .schema))
  | none, some schema => do
    return {
      schema
      input := ← g.input
      output := g.output
      verbosity := g.verbosity
      format := g.format.getD .json
      extension := g.extension
      config := ⟨g.maxDepth.getD 0, g.strictFunctions, g.byteOrder⟩
      dryRun := g.dryRun
      force := g.force }

end Given

def Options.parse (words : List String) : Except Stop Options := do
  Given.finish (← words.foldlM Given.add Given.empty)

end ByteSchema.Command
