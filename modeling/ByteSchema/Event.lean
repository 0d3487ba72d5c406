import ByteSchema.ByteOrder

/-!
# What a decode reports

Nodes that make do with what there is report a `Diagnostic`; an `Event` is a diagnostic or a step
worth showing to someone who follows the decode. A `Log` keeps the newest event first.
-/

namespace ByteSchema

inductive Diagnostic where
  /-- A call of a name outside the registry, which gave `undefined`. -/
  | unknownFunction (name : String) (offset : Nat)
  /-- The contents of a region were read past its end, to `offset`. -/
  | regionOverrun (start stop offset : Nat)
  /-- A repeating node stopped because one round consumed nothing. -/
  | stalled (node : String) (offset : Nat)
  /-- A lenient read gave fewer bytes than requested. -/
  | truncated (node : String) (requested available offset : Nat)
  deriving DecidableEq

def Diagnostic.text : Diagnostic → String
  | unknownFunction name offset => s!"unknown function '{name}' at offset {offset}"
  | regionOverrun start stop offset =>
    s!"region {start}..{stop} overrun to offset {offset}, clamped to {stop}"
  | stalled node offset => s!"{node} made no progress at offset {offset}"
  | truncated node requested available offset =>
    s!"{node} at offset {offset} truncated: requested {requested} bytes, got {available}"

inductive Event where
  | diagnostic (d : Diagnostic)
  | started (bytes : Nat) (order : ByteOrder) (nodes : Nat)
  | list (id : String) (offset : Nat) (count : Option Nat)
  | template (name : String) (offset : Nat)
  | region (id : String) (start stop : Nat)
  | unmatched (key : String)
  | completed (fields consumed total : Nat)

/-- How much a line of the log matters, from most to least. -/
inductive Level where
  | error | warn | info | debug | trace

namespace Level

def name : Level → String
  | error => "ERROR"
  | warn => "WARN"
  | info => "INFO"
  | debug => "DEBUG"
  | trace => "TRACE"

def rank : Level → Nat
  | error => 0
  | warn => 1
  | info => 2
  | debug => 3
  | trace => 4

end Level

namespace Event

def level : Event → Level
  | diagnostic _ => .warn
  | started .. | completed .. => .debug
  | list .. | template .. | region .. | unmatched .. => .trace

def orderName : ByteOrder → String
  | .little => "Little"
  | .big => "Big"

def countText : Option Nat → String
  | some n => s!"Some({n})"
  | none => "None"

def text : Event → String
  | diagnostic (.unknownFunction name _) =>
    s!"Call to unregistered function '{name}' yields undefined"
  | diagnostic d => d.text
  | started bytes order nodes =>
    s!"Starting decode of {bytes} bytes ({orderName order} endian, {nodes} top-level nodes)"
  | list id offset count => s!"list '{id}' at offset {offset} (count: {countText count})"
  | template name offset => s!"template '{name}' at offset {offset}"
  | region id start stop => s!"bounded '{id}' over {start}..{stop}"
  | unmatched key => s!"switch on '{key}' matched no case"
  | completed fields consumed total =>
    s!"Decode complete: {fields} fields, {consumed} of {total} bytes consumed"

def diagnostic? : Event → Option Diagnostic
  | diagnostic d => some d
  | _ => none

end Event

/-- Events, the newest first. -/
abbrev Log := List Event

/-- The diagnostics in order of arrival. -/
def Log.diagnostics (log : Log) : List Diagnostic :=
  (log.filterMap Event.diagnostic?).reverse

end ByteSchema
