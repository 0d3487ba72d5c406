import ByteSchema.Decode.Decoder
import ByteSchema.Proofs.Decode.Ends
import ByteSchema.Proofs.Number.Nearest

/-!
# Padding after odd lengths

A node of kind `skip_if_odd` goes by the double nearest to an integer. Below `2 ^ 53` that is the
integer itself; from there on it is even, and the node skips nothing.
-/

namespace ByteSchema

open Binary64

/-- The padding of an integer, of the bytes that are left: one after an odd one. -/
def padding (n : Int) (left : Nat) : Nat := if n % 2 = 1 ∧ 0 < left then 1 else 0

namespace State

/-- The state after a term was evaluated and `k` bytes were skipped. -/
def skipped (s : State) (log : Log) (k : Nat) : State :=
  { s with cursor := s.cursor.advance k, log := log }

theorem skipped_inj {s : State} {log : Log} {j k : Nat} :
    s.skipped log j = s.skipped log k ↔ j = k := by
  constructor
  · intro same
    have offsets : s.cursor.offset + j = s.cursor.offset + k :=
      congrArg (fun t : State => t.cursor.offset) same
    exact Nat.add_left_cancel offsets
  · exact congrArg _

end State

section

variable {setting : Setting} {ref : Term} {s : State} {n : Int64} {log : Log}

theorem skipIfOdd_of_ok (h : evaluate (Run.env setting s) ref s.log = .ok (.int n) log) :
    (Action.skipIfOdd ref).run setting s =
      .ok () (s.skipped log (if isOdd (ofInt64 n) then min 1 s.cursor.remaining else 0)) := by
  have number : Run.ofExcept (Value.int n).toFloat = (pure (ofInt64 n) : Run Float) := rfl
  rw [Action.run, bind_of_ok (Run.eval_of_ok h), number, pure_bind]
  split <;> rfl

/-- The node skips the padding of an integer that is below `2 ^ 53` in size, and nothing otherwise.
So it skips the padding of every integer but the odd ones past `2 ^ 53` that a byte follows. -/
theorem skipIfOdd_parity {call : Call}
    (h : evaluate (Run.env setting s) ref s.log = .ok (.int n) log) :
    Block.runNode setting call (.action (.skipIfOdd ref)) s = .ok () (s.skipped log
      (if n.toInt.natAbs < 2 ^ 53 then padding n.toInt s.cursor.remaining else 0)) ∧
    (Block.runNode setting call (.action (.skipIfOdd ref)) s =
        .ok () (s.skipped log (padding n.toInt s.cursor.remaining)) ↔
      n.toInt.natAbs < 2 ^ 53 ∨ padding n.toInt s.cursor.remaining = 0) := by
  have bytes : (if isOdd (ofInt64 n) then min 1 s.cursor.remaining else 0) =
      if n.toInt.natAbs < 2 ^ 53 then padding n.toInt s.cursor.remaining else 0 := by
    rw [isOdd_ofInt64]
    simp only [padding, decide_eq_true_eq]
    repeat' split
    all_goals omega
  have run : Block.runNode setting call (.action (.skipIfOdd ref)) s = .ok () (s.skipped log
      (if n.toInt.natAbs < 2 ^ 53 then padding n.toInt s.cursor.remaining else 0)) := by
    rw [Block.runNode, skipIfOdd_of_ok h, bytes]
  refine ⟨run, ?_⟩
  rw [run, EStateM.Result.ok.injEq, State.skipped_inj]
  by_cases below : n.toInt.natAbs < 2 ^ 53
  · rw [if_pos below]
    exact iff_of_true ⟨rfl, rfl⟩ (.inl below)
  · rw [if_neg below, or_iff_right below]
    exact ⟨fun same => same.2.symm, fun none => ⟨rfl, none.symm⟩⟩

end

namespace DecodeSample

/-- After a length `n` the field `next`, behind the padding of `n`. -/
def padded (n : UInt64) : Setting where
  schema := {
    byteOrder := .big
    templates := []
    spec := [
      .action (.bind "n" (.uint n)),
      .action (.skipIfOdd (.ref "n")),
      .action (.uint "next" (.uint 1))] }
  config := .default
  functions := []

def next? (n : UInt64) (data : List UInt8) : Option Value :=
  (decode (padded n) data).result.toOption.bind fun record => record.get? "next"

/-- In front of the padding of `n`. -/
def unpadded (n : Int64) (data : List UInt8) : State where
  cursor := .start data .big
  scopes := Scopes.empty.write "n" (.int n)
  regions := []
  depth := 1
  log := []

def skip (n : Int64) (data : List UInt8) : EStateM.Result Halt State Unit :=
  Block.runNode (padded 0) (Block.callWithin (padded 0) 0) (.action (.skipIfOdd (.ref "n")))
    (unpadded n data)

end DecodeSample

open DecodeSample in
/-- What is read behind a large odd length is its padding. -/
theorem skipIfOdd_parity_large :
    padding 9007199254740993 2 = 1 ∧
    skip 9007199254740993 [0xff, 7] =
      .ok () ((unpadded 9007199254740993 [0xff, 7]).skipped [] 0) ∧
    next? 9007199254740993 [0xff, 7] = some (.int 255) :=
  ⟨rfl, rfl, rfl⟩

open DecodeSample in
theorem skipIfOdd_parity_small :
    skip (-3) [0xff, 7] = .ok () ((unpadded (-3) [0xff, 7]).skipped [] 1) ∧
    skip 4 [0xff, 7] = .ok () ((unpadded 4 [0xff, 7]).skipped [] 0) ∧
    skip 3 [] = .ok () ((unpadded 3 []).skipped [] 0) := by
  have parity (n : Int64) (data : List UInt8) (h : n.toInt.natAbs < 2 ^ 53) : skip n data =
      .ok () ((unpadded n data).skipped [] (padding n.toInt (unpadded n data).cursor.remaining)) :=
    (skipIfOdd_parity rfl).2.mpr (.inl h)
  exact ⟨parity (-3) [0xff, 7] (by decide), parity 4 [0xff, 7] (by decide), parity 3 [] (by decide)⟩

end ByteSchema
