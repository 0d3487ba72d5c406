import ByteSchema.Command.Options
import ByteSchema.Json.Printer
import ByteSchema.Value.Json

/-!
# Records as text
-/

namespace ByteSchema.Command

/-- A value in one line. -/
def describe : Value → String
  | .text s => Text.quoted s
  | .bytes data => s!"<{data.length} bytes>"
  | .list items => s!"[{items.length} items]"
  | .record fields => s!"\x7b{fields.length} fields\x7d"
  | v => v.display

def fieldLine (field : String × Value) : String := field.1 ++ ": " ++ describe field.2

def render (format : Format) (record : Record) : String :=
  match format with
  | .json => (Value.record record).toJson.pretty
  | .compact => (Value.record record).toJson.compact
  | .fields => "\n".intercalate (record.map fieldLine)

end ByteSchema.Command
