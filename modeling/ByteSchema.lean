import ByteSchema.Main
import ByteSchema.Proofs.Decode.AddedNames
import ByteSchema.Proofs.Decode.Confined
import ByteSchema.Proofs.Decode.Inlining
import ByteSchema.Proofs.Decode.Items
import ByteSchema.Proofs.Decode.Lenient
import ByteSchema.Proofs.Decode.Limits
import ByteSchema.Proofs.Decode.OuterCalls
import ByteSchema.Proofs.Decode.Prefixes
import ByteSchema.Proofs.Decode.Regions
import ByteSchema.Proofs.Decode.Rounds
import ByteSchema.Proofs.Decode.Spellings
import ByteSchema.Proofs.Decode.SubBlocks
import ByteSchema.Proofs.Decode.Trailing
import ByteSchema.Proofs.Decode.Truthful
import ByteSchema.Proofs.Files.Access
import ByteSchema.Proofs.Files.Paths
import ByteSchema.Proofs.Command.Respects
import ByteSchema.Proofs.Command.Outputs
import ByteSchema.Proofs.Json.Grammar
import ByteSchema.Proofs.Json.Reading
import ByteSchema.Proofs.Json.Printing
import ByteSchema.Proofs.Value.Json
import ByteSchema.Proofs.Schema.Terms
import ByteSchema.Proofs.Schema.Encoding
import ByteSchema.Proofs.Schema.Reading
import ByteSchema.Proofs.Schema.Writing
import ByteSchema.Proofs.Files.Walk
import ByteSchema.Proofs.Command.Given
import ByteSchema.Proofs.Command.Scanning
import ByteSchema.Proofs.Command.Isolation
import ByteSchema.Proofs.Command.Delivery
import ByteSchema.Proofs.Command.Filing
import ByteSchema.Proofs.Number.Rounding
import ByteSchema.Proofs.Number.Doubles
import ByteSchema.Proofs.Number.Nearest
import ByteSchema.Proofs.Expr.Integers
import ByteSchema.Proofs.Value.Equality
import ByteSchema.Proofs.Value.Numerals
import ByteSchema.Proofs.Decode.Parity
import ByteSchema.Proofs.Expr.Exact
import ByteSchema.Proofs.Decode.Alignment
import ByteSchema.Proofs.Decode.Positional
import ByteSchema.Proofs.Decode.Vints
import ByteSchema.Proofs.Decode.Escapes
import ByteSchema.Proofs.Decode.Pointers
import ByteSchema.Proofs.Decode.Trails
import ByteSchema.Proofs.Decode.Delimiters
import ByteSchema.Proofs.Decode.BitFields
import ByteSchema.Proofs.Decode.Assignment
import ByteSchema.Proofs.Expr.Associativity
import ByteSchema.Proofs.Value.Paths
import ByteSchema.Proofs.Expr.Access
import ByteSchema.Proofs.Expr.Sums
import ByteSchema.Proofs.Value.Elements
import ByteSchema.Proofs.Value.Symmetry
import ByteSchema.Proofs.Value.History
import ByteSchema.Proofs.Expr.Grammar
