import ByteSchema.Proofs.Decode.Outcomes

/-!
# Input behind a decode

Strict nodes see the input only through reads, and a read sees no more than the bytes that it takes.
So a decode of strict nodes that has enough input does not notice how the input goes on.
-/

namespace ByteSchema

/-- The second input goes on behind the first one, which may not be enough. -/
def Sides.trailing (data tail : List UInt8) : Sides :=
  .plain data tail (fun halt _ _ => ∃ e : Error, halt = .failed e ∧ e.LacksInput)
    fun lacks _ => lacks

def Pairing.trailing (setting : Setting) (data tail : List UInt8) : Pairing setting setting :=
  .plain (q := .trailing data tail) rfl rfl (.refl setting)
    (.inr fun lacks _ _ _ => ⟨_, rfl, lacks⟩) (Block.enter_follows rfl)

/-- A schema that only comes to strict nodes: whatever it makes of an input, unless the input is too
short for it, it makes of every longer one. -/
theorem trailing_input_unseen (setting : Setting)
    (strict : ∀ node, Occurs setting.schema setting.schema.spec node → node.isStrict = true)
    (data tail : List UInt8)
    (enough : ∀ offset requested available, (decode setting data).result ≠
      .error (.failed (.unexpectedEof offset requested available))) :
    (decode setting (data ++ tail)).result = (decode setting data).result ∧
      (decode setting (data ++ tail)).diagnostics = (decode setting data).diagnostics := by
  have outcomes : (Sides.trailing data tail).Outcomes (decode setting data)
      (decode setting (data ++ tail)) :=
    Decoder.decodeWithin_follows (p := .trailing setting data tail) rfl (.inr strict) rfl rfl
      rfl rfl _
  cases outcomes with
  | level result reported => exact ⟨result, reported⟩
  | parted halted lacks =>
    obtain ⟨_, rfl, offset, requested, available, rfl⟩ := lacks
    exact absurd halted (enough offset requested available)

namespace DecodeSample

def numbers : Setting where
  schema := {
    byteOrder := .big
    templates := [("item", ⟨[], [.action (.uint "x" (.uint 1))]⟩)]
    spec := [
      .action (.uint "n" (.uint 1)),
      .list "items" [.template "item" (.named [])] (some (.ref "n")) none none none] }
  config := .default
  functions := []

end DecodeSample

open DecodeSample in
theorem trailing_input_unseen_numbers :
    (decode numbers [1, 5]).keys? = some ["n", "items"] ∧
    ∀ tail, (decode numbers ([1, 5] ++ tail)).result = (decode numbers [1, 5]).result ∧
      (decode numbers ([1, 5] ++ tail)).diagnostics = [] := by
  have ended : (decode numbers [1, 5]).keys? = some ["n", "items"] := by decide +kernel
  have reported : (decode numbers [1, 5]).diagnostics = [] := by decide +kernel
  have strict : ∀ node ∈ numbers.schema.nodes, node.isStrict = true := by decide
  have enough offset requested available : (decode numbers [1, 5]).result ≠
      .error (.failed (.unexpectedEof offset requested available)) := by
    obtain ⟨record, result, -⟩ := Outcome.result_of_keys? ended
    rw [result]
    nofun
  refine ⟨ended, fun tail => ?_⟩
  rw [← reported]
  exact trailing_input_unseen numbers (fun node h => strict node h.mem_nodes) [1, 5] tail enough

end ByteSchema
