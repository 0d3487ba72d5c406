import ByteSchema.Decode.Action

/-!
# Running blocks

A block runs its nodes in order, one level deeper. The templates that nodes call are run by the
parameter `call`, so running a block is recursion on its nodes; `callWithin` ties the knot for as
many calls inside each other as it is given.
-/

namespace ByteSchema

/-- Runs the body of a template. -/
abbrev Call := Template → Run Unit

namespace Block

/-! ### Levels -/

/-- One level deeper, unless that is too deep. A level that is not left keeps counting. -/
def enter (setting : Setting) : Run Unit := do
  modify fun s => { s with depth := s.depth + 1 }
  let limit := setting.config.maxDepth
  if 0 < limit ∧ limit < (← get).depth then Run.fail (.depthExceeded limit)

def leave : Run Unit := modify fun s => { s with depth := s.depth - 1 }

def nested (setting : Setting) (body : Run Unit) : Run Unit := do
  enter setting
  body
  leave

/-! ### Repeated items -/

/-- Runs `body` in a scope of its own, and gives what `after` makes of it there with the record. -/
def inScope {α : Type} (body : Run Unit) (after : Run α) : Run (α × Record) := do
  Run.mapScopes Scopes.push
  body
  let a ← after
  let item ← Run.popScope
  return (a, item)

def pushItem (id : String) (item : Record) : Run Unit :=
  Run.mapScopes fun s => s.mapTarget fun r => r.pushItem id (.record item)

/-- An optional condition, with the truth of an absent one. -/
def condition (setting : Setting) (absent : Bool) : Option Term → Run Bool
  | some term => Run.evalTruth setting term
  | none => pure absent

/-- One item of a list; true when it is the last. -/
def listItem (setting : Setting) (id : String) (stopWhen emitWhen : Option Term)
    (body : Run Unit) : Run Bool := do
  let ((stop, emit), item) ← inScope body do
    let stop ← condition setting false stopWhen
    let emit ← condition setting true emitWhen
    return (stop, emit)
  if emit then pushItem id item
  return stop

/-- At most `n` items, up to the first that is the last. -/
def counted (item : Run Bool) : Nat → Run Unit
  | 0 => pure ()
  | n + 1 => do
    if ← item then pure () else counted item n

/-- The end of the innermost region, or of the input. -/
def atRegionEnd : Run Bool := do
  let s ← get
  match s.regions with
  | region :: _ => return region.stop ≤ s.cursor.offset
  | [] => return s.cursor.length ≤ s.cursor.offset

/-- Items up to the last or, without a stop condition, to the end of the region. An item that
consumes nothing ends the list. Every other one consumes a byte, so `fuel` above the number of
bytes left is enough. -/
def uncounted (toEnd : Bool) (item : Run Bool) : Nat → Run Unit
  | 0 => throw .exhausted
  | fuel + 1 => do
    if toEnd && (← atRegionEnd) then pure ()
    else do
      let start ← Run.offset
      if ← item then pure ()
      else if (← Run.offset) = start then Run.report (.stalled "list" start)
      else uncounted toEnd item fuel

def runList (setting : Setting) (id : String) (count stopWhen emitWhen : Option Term)
    (body : Run Unit) : Run Unit := do
  let count ← Run.evalLimit setting count
  Run.log (.list id (← Run.offset) count)
  Run.write id (.list [])
  let item := listItem setting id stopWhen emitWhen body
  match count with
  | some n => counted item n
  | none => uncounted stopWhen.isNone item ((← Run.cursor).remaining + 1)

/-- Items until the cursor is at `stop`; one that consumes nothing is the last. Every other one
consumes a byte, so `fuel` above the number of bytes up to `stop` is enough. -/
def fill (stop : Nat) (item : Run Unit) : Nat → Run Unit
  | 0 => throw .exhausted
  | fuel + 1 => do
    let start ← Run.offset
    if start < stop then do
      item
      if (← Run.offset) = start then Run.report (.stalled "bounded" start)
      else fill stop item fuel
    else pure ()

def regionItem (id : String) (body : Run Unit) : Run Unit := do
  let ((), item) ← inScope body (pure ())
  pushItem id item

def openRegion (region : Region) : Run Unit :=
  modify fun s => { s with regions := region :: s.regions }

def closeRegion : Run Unit := modify fun s => { s with regions := s.regions.drop 1 }

/-- Items that fill a region of the input. However far they read, the cursor ends where the region
does. -/
def runBounded (setting : Setting) (id : String) (length : Term) (body : Run Unit) : Run Unit := do
  let length ← Run.evalLength setting length
  let c ← Run.cursor
  let start := c.offset
  let stop := min (start + length) c.length
  Run.log (.region id start stop)
  Run.write id (.list [])
  openRegion ⟨start, stop⟩
  fill stop (regionItem id body) (stop - start + 1)
  closeRegion
  let c ← Run.cursor
  if stop < c.offset then Run.report (.regionOverrun start stop c.offset)
  Run.setCursor (c.seek stop)

/-! ### Template calls -/

/-- Evaluates arguments to numbers, each under its name. -/
def bindAll (setting : Setting) (frame : Record) : List (String × Term) → Run Record
  | [] => pure frame
  | (name, term) :: rest => do
    let v ← Run.evalNumber setting term
    bindAll setting (frame.insert name v) rest

def bind (setting : Setting) (name : String) (parameters : List String) :
    Arguments → Run Record
  | .positional terms =>
    if parameters.length < terms.length then
      Run.fail (.invalidSchema (.argumentCount name parameters.length terms.length))
    else bindAll setting .empty (parameters.zip terms)
  | .named terms => bindAll setting .empty terms

/-- Runs a template in a scope of its own and merges its fields into the target. -/
def runTemplate (setting : Setting) (call : Call) (name : String) (arguments : Arguments) :
    Run Unit := do
  let template ← Run.ofExcept (setting.schema.template? name)
  let frame ← bind setting name template.parameters arguments
  Run.log (.template name (← Run.offset))
  Run.mapScopes fun s => (s.pushFrame frame).push
  call template
  let fields ← Run.popScope
  Run.popFrame
  Run.mapScopes fun s => s.mapTarget fun r => r.merge fields

/-! ### Blocks -/

/-- Runs `body` under another byte order. -/
def inOrder (order : ByteOrder) (body : Run Unit) : Run Unit := do
  let saved := (← Run.cursor).order
  Run.setOrder order
  body
  Run.setOrder saved

mutual

def runNode (setting : Setting) (call : Call) : Node → Run Unit
  | .action a => a.run setting
  | .list id items count stopWhen readUntil emitWhen =>
    runList setting id count (stopWhen.or readUntil) emitWhen
      (nested setting (runAll setting call items))
  | .template name arguments => runTemplate setting call name arguments
  | .branch term spec otherwise => do
    if ← Run.evalTruth setting term then nested setting (runAll setting call spec)
    else nested setting (runAll setting call otherwise)
  | .switch on cases fallback => do
    let key := (← Run.eval setting on).display
    match (runCase setting call key cases).or
        ((runDefault setting call fallback).or (runCase setting call "default" cases)) with
    | some body => body
    | none => Run.log (.unmatched key)
  | .bounded id length spec =>
    runBounded setting id length (nested setting (runAll setting call spec))
  | .withByteOrder order spec => inOrder order (nested setting (runAll setting call spec))

/-- The nodes one after the other, without a level of their own. -/
def runAll (setting : Setting) (call : Call) : List Node → Run Unit
  | [] => pure ()
  | node :: rest => do
    runNode setting call node
    runAll setting call rest

/-- The block of the case with this key. -/
def runCase (setting : Setting) (call : Call) (key : String) :
    List (String × List Node) → Option (Run Unit)
  | [] => none
  | (name, spec) :: rest =>
    if name = key then some (nested setting (runAll setting call spec))
    else runCase setting call key rest

def runDefault (setting : Setting) (call : Call) : Option (List Node) → Option (Run Unit)
  | some spec => some (nested setting (runAll setting call spec))
  | none => none

end

/-- A block: its nodes one level deeper. -/
def run (setting : Setting) (call : Call) (nodes : List Node) : Run Unit :=
  nested setting (runAll setting call nodes)

/-- Template calls that nest at most `levels` deep. -/
def callWithin (setting : Setting) : Nat → Call
  | 0 => fun _ => throw .exhausted
  | levels + 1 => fun template => run setting (callWithin setting levels) template.spec

end Block

end ByteSchema
