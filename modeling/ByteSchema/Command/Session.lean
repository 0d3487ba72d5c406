import ByteSchema.Error
import ByteSchema.Event
import ByteSchema.Files.Tree
import ByteSchema.Text.Split

/-!
# The session of a command

A `Session` changes files, prints lines, logs and counts, and may be interrupted. What it did
before stays done.
-/

namespace ByteSchema.Command

/-- Something that did not work, with its causes from the nearest on. -/
structure Failure where
  message : String
  causes : List String

namespace Failure

def ofError (message : String) (e : Error) : Failure where
  message
  causes := e.message ::
    match e with
    | .fileRead _ reason => [reason]
    | .schemaParse mismatch => [mismatch.message]
    | _ => []

/-- The failure for the log. -/
def inLine (f : Failure) : String := ": ".intercalate (f.message :: f.causes)

/-- A text whose lines after the first are moved to the right. -/
def hanging (width : Nat) (text : String) : String :=
  ("\n" ++ "".pushn ' ' width).intercalate ((Text.splitOn '\n' text.toList).map String.ofList)

def numbered (i : Nat) : List String → List String
  | [] => []
  | cause :: causes =>
    ("".pushn ' ' (5 - (toString i).length) ++ s!"{i}: " ++ hanging 7 cause) ::
      numbered (i + 1) causes

/-- The failure as the last words of a command. One cause stands alone, several are counted. -/
def report (f : Failure) : String :=
  match f.causes with
  | [] => f.message
  | [cause] => f.message ++ "\n\nCaused by:\n    " ++ hanging 4 cause
  | causes => f.message ++ "\n\nCaused by:\n" ++ "\n".intercalate (numbered 0 causes)

end Failure

structure Tally where
  decoded : Nat
  failed : Nat
  diagnostics : Nat
  written : Nat

def Tally.text (t : Tally) : String :=
  s!"Summary: {t.decoded} decoded, {t.failed} failed, {t.diagnostics} diagnostics, " ++
    s!"{t.written} written"

/-- A line of the log. -/
structure Note where
  level : Level
  message : String

def Note.text (n : Note) : String := n.level.name ++ " " ++ n.message

structure Progress where
  files : Files
  /-- The printed lines, the newest first. -/
  printed : List String
  /-- The newest first. -/
  notes : List Note
  tally : Tally

def Progress.initial (files : Files) : Progress := ⟨files, [], [], ⟨0, 0, 0, 0⟩⟩

/-- Why a session ends before its time. Only failures can be dealt with. -/
inductive Interrupt where
  | failed (f : Failure)
  /-- A decode broke off where words overflow, and the program with it. -/
  | overflow
  /-- A decode went deeper than the program can. -/
  | exhausted

abbrev Session := EStateM Interrupt Progress

namespace Session

def fail {α : Type} (f : Failure) : Session α := throw (.failed f)

def files : Session Files := do return (← get).files

def setFiles (files : Files) : Session Unit := modify fun s => { s with files := files }

def print (line : String) : Session Unit := modify fun s => { s with printed := line :: s.printed }

def note (level : Level) (message : String) : Session Unit :=
  modify fun s => { s with notes := ⟨level, message⟩ :: s.notes }

/-- The whole log of a decode. -/
def noteAll (log : Log) : Session Unit :=
  modify fun s => { s with notes := log.map (fun e => ⟨e.level, e.text⟩) ++ s.notes }

def count (f : Tally → Tally) : Session Unit := modify fun s => { s with tally := f s.tally }

def summarize : Session Unit := do note .info (← get).tally.text

end Session

end ByteSchema.Command
