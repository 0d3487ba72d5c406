import ByteSchema.Proofs.Decode.Halts

/-!
# Nodes that never lack input

Lenient nodes take what there is. Scanning ones read a run strictly, but measure it first, and a
scanner never measures more than there is. So when all nodes of a schema are of these kinds, its
decodes may fail, but never for lack of input.
-/

namespace ByteSchema

def Halt.isReadFault : Halt → Bool
  | failed e => e.isReadFault
  | overflow | exhausted => false

/-- No function gives an error that is for reads to give. -/
def Registry.Honest (functions : Registry) : Prop :=
  ∀ name f arguments, functions.get? name = some f →
    Fails (fun e => e.isReadFault = false) (f arguments)

theorem IsComplaint.no_readFault {e : Error} (h : IsComplaint e) : e.isReadFault = false := by
  obtain h | ⟨name, message, rfl⟩ := h
  · exact h.isMistake.no_readFault
  · rfl

theorem Registry.builtins_honest : Registry.builtins.Honest := fun _ _ arguments found =>
  (builtins_fails found arguments).imp fun _ => IsComplaint.no_readFault

theorem TermCause.no_readFault {functions : Registry} {strict : Bool} {e : Error}
    (cause : TermCause functions strict e) (honest : functions.Honest) : e.isReadFault = false := by
  cases cause with
  | eval | noMatch | coercion | unknownFunction => rfl
  | function found failed => exact honest _ _ _ found e failed

theorem Registry.Honest.allowed {setting : Setting} (honest : setting.functions.Honest) :
    Halt.Allowed setting fun halt => halt.isReadFault = false where
  failed h := h
  term cause := cause.no_readFault honest
  exhausted := rfl

def Node.demandsInput : Node → Bool
  | action a => a.demandsInput
  | _ => false

/-- Where no node asks for more than there may be, a decode never fails for lack of input, be it cut
off or empty, nor for a byte that announces no length. -/
theorem lenient_never_starved (setting : Setting) (levels : Nat) (data : List UInt8) (e : Error)
    (lenient : ∀ node, Occurs setting.schema setting.schema.spec node → node.demandsInput = false)
    (honest : setting.functions.Honest)
    (failed : (Decoder.decodeWithin levels setting data).result = .error (.failed e)) :
    e.isReadFault = false := by
  have allowed := honest.allowed
  have compositional := @HaltsOnly.compositional setting _ data allowed
  refine Decoder.halts_fine allowed (fun a ha => ?_) failed
  have spares : a.demandsInput = false := lenient (.action a) ha
  exact compositional.action a (fun demands => absurd demands (by simp [spares]))
    (fun _ _ _ _ => .mapScopes _) fun _ _ _ => compositional.runAlign (.throw rfl) _ _

namespace DecodeSample

/-- All kinds of scans in a region, however short it is, and a check that it had anything. -/
def scanning : Setting where
  schema := {
    byteOrder := .big
    templates := [("scans", ⟨["max"], [
      .action (.asciiUntil "name" [0] (some (.ref "max"))),
      .action (.bytesUntil "body" [1, 2, 3] (some (.ref "max"))),
      .action (.bytesUntilMarker "scan" 0xff [0] [(0xd0, 0xd7)]),
      .action (.align (.uint 4) .scope)]⟩)]
    spec := [
      .bounded "parts" (.uint 100) [.template "scans" (.positional [.uint 9])],
      .action (.bytesLenient "rest" (.uint 8)),
      .action (.assert (.call [.ref "list::length", .ref "parts"]) "no parts")] }
  config := .default
  functions := .builtins

end DecodeSample

open DecodeSample in
theorem lenient_never_starved_scanning :
    (∀ data e, (Decoder.decodeWithin 1 scanning data).result = .error (.failed e) →
      e.isReadFault = false) ∧
    (Decoder.decodeWithin 1 scanning [0x41, 0xff]).keys? = some ["parts", "rest"] ∧
    (Decoder.decodeWithin 1 scanning []).result =
      .error (.failed (.assertionFailed "no parts" 0)) := by
  have lenient : ∀ node ∈ scanning.schema.nodes, node.demandsInput = false := by decide
  refine ⟨fun data e failed => ?_, by decide +kernel, rfl⟩
  exact lenient_never_starved scanning 1 data e (fun node h => lenient node h.mem_nodes)
    Registry.builtins_honest failed

end ByteSchema
