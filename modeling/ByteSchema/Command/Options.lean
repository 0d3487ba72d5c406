import ByteSchema.Decode.State

/-!
# Options of the command
-/

namespace ByteSchema.Command

/-- How a record is shown. -/
inductive Format where
  | json
  | compact
  /-- One line for each field. -/
  | fields
  deriving DecidableEq

/-- What is decoded: one file, or the files anywhere below a directory. -/
inductive Input where
  | file (path : String)
  | directory (path : String)

structure Options where
  schema : String
  input : Input
  /-- The directory that records are written to; without one they are printed. -/
  output : Option String
  verbosity : Nat
  format : Format
  /-- The ending that the files of a directory must have. -/
  extension : Option String
  config : Config
  dryRun : Bool
  /-- Files that are there may be overwritten. -/
  force : Bool

end ByteSchema.Command
