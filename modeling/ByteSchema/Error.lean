import ByteSchema.Expr.Operator
import ByteSchema.Value.Display

/-!
# Errors

What can end a decode, or keep a schema from being read, as causes; `Error.message` words them.
-/

namespace ByteSchema

/-- What is wrong with a term in a schema. -/
inductive TermFault where
  | null
  /-- A number that is negative, or has a fraction or an exponent. -/
  | numeral (text : String)
  | keyCount (n : Nat)
  | unsupportedForm (key : String)
  | unknownOperator (symbol : String)
  | unnamedCall
  | matchBody
  | matchOn
  | matchCases
  | caseBody
  | caseWhen
  | caseThen

/-- A schema that can be read and yet cannot be used. -/
inductive SchemaFault where
  | term (fault : TermFault)
  | integerWidth (bytes : Nat)
  | bitWidth (bits left : Nat)
  | argumentCount (template : String) (parameters arguments : Nat)
  | alignToZero

/-- A term that cannot be evaluated. -/
inductive EvalFault where
  | strayOperator (op : Operator)
  | leadingOperator (op : Operator)
  | missingOperand (op : Operator)
  | missingOperator
  | unnamedCall

/-- Why a JSON text is no schema: it ends too early, it is no JSON or too deep, or it is JSON of
another shape. -/
inductive Mismatch where
  | truncated
  | malformed
  | term (fault : TermFault)
  | missingField (name : String)
  | duplicateField (name : String)
  | unknownVariant (name : String)
  | shape

inductive Error where
  | fileRead (path reason : String)
  | schemaParse (mismatch : Mismatch)
  | invalidSchema (fault : SchemaFault)
  | unexpectedEof (offset requested available : Nat)
  | invalidVint (offset : Nat) (byte : UInt8)
  | unknownTemplate (name : String)
  | unknownFunction (name : String)
  | assertionFailed (message : String) (offset : Nat)
  | coercion (value expected : String)
  | invalidLength (value : Float)
  | noMatch (value : String)
  | eval (fault : EvalFault)
  | function (name message : String)
  | depthExceeded (limit : Nat)
  | internal (message : String)

def TermFault.message : TermFault → String
  | null => "null is not an expression"
  | numeral text => s!"numeric literal {text} must be a non-negative integer"
  | keyCount n => s!"expression object must have exactly one key, got {n}"
  | unsupportedForm key => s!"unsupported expression form '{key}'"
  | unknownOperator symbol => s!"unknown operator '{symbol}'"
  | unnamedCall => "call needs a function name"
  | matchBody => "match body must be an object"
  | matchOn => "match needs an 'on' condition"
  | matchCases => "match needs a 'cases' array"
  | caseBody => "match case must be an object"
  | caseWhen => "match case needs 'when'"
  | caseThen => "match case needs 'then'"

def SchemaFault.message : SchemaFault → String
  | term fault => fault.message
  | integerWidth bytes => s!"integer width must be 1..=8 bytes, got {bytes}"
  | bitWidth bits left => s!"bitfield entry of {bits} bits does not fit in the {left} bits left"
  | argumentCount template parameters arguments =>
    s!"template '{template}' takes {parameters} params, got {arguments}"
  | alignToZero => "align to 0 bytes"

def EvalFault.message : EvalFault → String
  | strayOperator op => s!"operator '{op.symbol}' used outside an expression"
  | leadingOperator op => s!"expression starts with operator '{op.symbol}'"
  | missingOperand op => s!"operator '{op.symbol}' is missing its right operand"
  | missingOperator => "expected an operator between operands"
  | unnamedCall => "call without a function name"

def Mismatch.message : Mismatch → String
  | truncated => "unexpected end of the text"
  | malformed => "malformed text"
  | term fault => "invalid schema: " ++ fault.message
  | missingField name => s!"missing field `{name}`"
  | duplicateField name => s!"duplicate field `{name}`"
  | unknownVariant name => s!"unknown variant `{name}`"
  | shape => "value of another shape"

namespace Error

/-- As values are displayed, but with the short name of infinity. -/
def lengthLayout : Layout := { Value.numberLayout with infinity := "inf" }

def byteHex (b : UInt8) : String :=
  let n := b.toNat
  String.ofList [Nat.digitChar (n / 16), Nat.digitChar (n % 16)]

def message : Error → String
  | fileRead path reason => s!"failed to read file '{path}': {reason}"
  | schemaParse mismatch => "failed to parse schema: " ++ mismatch.message
  | invalidSchema fault => "invalid schema: " ++ fault.message
  | unexpectedEof offset requested available =>
    s!"unexpected end of input at offset {offset}: need {requested} bytes, have {available}"
  | invalidVint offset byte =>
    s!"invalid EBML vint at offset {offset}: first byte 0x{byteHex byte} has no length marker"
  | unknownTemplate name => s!"unknown template '{name}'"
  | unknownFunction name => s!"unknown function '{name}'"
  | assertionFailed message offset => s!"assertion failed at offset {offset}: {message}"
  | coercion value expected => s!"cannot coerce {value} to {expected}"
  | invalidLength value => s!"invalid length {lengthLayout.write value}"
  | noMatch value => s!"no match case for value {value}"
  | eval fault => "expression error: " ++ fault.message
  | function name message => s!"function '{name}' failed: {message}"
  | depthExceeded limit => s!"nesting depth limit {limit} exceeded"
  | internal message => s!"internal error: {message}"

/-- The input does not fit the schema, as opposed to a fault of the schema or the caller. -/
def isDataError : Error → Bool
  | unexpectedEof .. | invalidVint .. | assertionFailed .. => true
  | _ => false

end Error

end ByteSchema
