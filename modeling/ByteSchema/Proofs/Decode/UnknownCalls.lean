import ByteSchema.Proofs.Decode.Outcomes

/-!
# Calls of unknown functions

A decode that goes on after a call of a function that is not there has reported the call. Up to the
first of these reports it is the decode that fails there.
-/

namespace ByteSchema

/-- The setting in which calls of unknown functions fail, or do not. -/
def Setting.withStrict (strict : Bool) (setting : Setting) : Setting :=
  { setting with config := { setting.config with strictFunctions := strict } }

/-- Nothing of this reports a call of an unknown function. -/
def KnownCalls (ds : List Diagnostic) : Prop :=
  ∀ name offset, Diagnostic.unknownFunction name offset ∉ ds

theorem KnownCalls.append {d : Diagnostic} {ds : List Diagnostic} (h : KnownCalls ds)
    (hd : ∀ name offset, d ≠ .unknownFunction name offset) : KnownCalls (ds ++ [d]) := by
  intro name offset hmem
  obtain hmem | hmem := List.mem_append.mp hmem
  · exact h name offset hmem
  · exact hd name offset (List.mem_singleton.mp hmem).symm

theorem KnownCalls.first_unique {before before' after after' : List Diagnostic}
    {name name' : String} {offset offset' : Nat} (h : KnownCalls before)
    (h' : KnownCalls before')
    (same : before ++ .unknownFunction name offset :: after =
      before' ++ .unknownFunction name' offset' :: after') :
    before = before' ∧ name = name' := by
  induction before generalizing before' with
  | nil =>
    cases before' with
    | nil =>
      cases same
      exact ⟨rfl, rfl⟩
    | cons d rest =>
      cases same
      exact absurd List.mem_cons_self (h' _ _)
  | cons d rest ih =>
    cases before' with
    | nil =>
      cases same
      exact absurd List.mem_cons_self (h _ _)
    | cons d' rest' =>
      obtain ⟨rfl, tails⟩ := List.cons.inj same
      obtain ⟨rfl, rfl⟩ := ih (fun name offset hmem => h name offset (.tail _ hmem))
        (fun name offset hmem => h' name offset (.tail _ hmem)) tails
      exact ⟨rfl, rfl⟩

variable {setting : Setting} {data : List UInt8}

/-- The first decode may fail at its first call of an unknown function, of which the second one
makes a report. -/
def Sides.firstUnknown (data : List UInt8) : Sides where
  data := data
  tail := []
  scopes := Eq
  reported ds ds' := ds' = ds ∧ KnownCalls ds
  parted halt ds es := KnownCalls ds ∧ ∃ name offset, halt = .failed (.unknownFunction name) ∧
    ds ++ [.unknownFunction name offset] <+: es
  later := fun ⟨known, name, offset, halt, reported⟩ more =>
    ⟨known, name, offset, halt, reported.trans more⟩

theorem Env.call_firstUnknown {env env' : Env} (functions : env'.functions = env.functions)
    (strict : env.strict = true) (lenient : env'.strict = false) (name : String)
    (arguments : List Value) : Follows (Sides.firstUnknown data).termPace
      (env.call name arguments) (env'.call name arguments) := by
  refine ⟨env'.call_grows name arguments, fun log log' h => ?_⟩
  unfold Env.call
  rw [functions, strict, lenient]
  cases env.functions.get? name with
  | some f => exact Eval.ofExcept_follows.pairs log log' h
  | none =>
    refine .partedOk ⟨h.2, name, env'.offset, rfl, ?_⟩
    show log.diagnostics ++ _ <+: Log.diagnostics (_ :: log')
    rw [Log.diagnostics_cons, h.1]
    exact List.prefix_rfl

def Pairing.firstUnknown (setting : Setting) (data : List UInt8) :
    Pairing (setting.withStrict true) (setting.withStrict false) where
  toSides := .firstUnknown data
  congruence := .eq
  report grounded h := ⟨congrArg (· ++ _) h.1, h.2.append (by rintro _ _ rfl; cases grounded)⟩
  short := .inl rfl
  template? _ := .inl rfl
  call _ := Env.call_firstUnknown rfl rfl rfl
  enter := Block.enter_follows rfl

/-- Where a decode reports no unknown function, it is the strict decode too. Otherwise the strict
decode fails where it makes the first such report, for the same function, and has reported all that
comes before. -/
theorem strict_cuts_off (setting : Setting) (data : List UInt8) :
    let lenient := decode (setting.withStrict false) data
    let strict := decode (setting.withStrict true) data
    (KnownCalls lenient.diagnostics →
      strict.result = lenient.result ∧ strict.diagnostics = lenient.diagnostics) ∧
    ∀ before name offset after, KnownCalls before →
      lenient.diagnostics = before ++ .unknownFunction name offset :: after →
      strict.result = .error (.failed (.unknownFunction name)) ∧ strict.diagnostics = before := by
  intro lenient strict
  have outcomes : (Sides.firstUnknown data).Outcomes strict lenient :=
    Decoder.decodeWithin_follows (p := .firstUnknown setting data) (List.append_nil data)
      (.inl rfl) rfl ⟨rfl, fun _ _ => List.not_mem_nil⟩ rfl rfl _
  refine ⟨fun known => ?_, fun before name offset after known first => ?_⟩
  · cases outcomes with
    | level result reported => exact ⟨result.symm, reported.1.symm⟩
    | parted halted parted =>
      obtain ⟨-, name, offset, -, reported⟩ := parted
      have called : .unknownFunction name offset ∈ lenient.diagnostics :=
        reported.subset (by simp)
      exact absurd called (known name offset)
  · cases outcomes with
    | level result reported =>
      -- In step to the end, none of these reports was made.
      have called : .unknownFunction name offset ∈ lenient.diagnostics := by simp [first]
      exact absurd (reported.1 ▸ called) (reported.2 name offset)
    | parted halted parted =>
      obtain ⟨known', name', offset', rfl, rest, reported⟩ := parted
      rw [first, List.append_assoc] at reported
      obtain ⟨same, rfl⟩ := known'.first_unique known reported
      exact ⟨halted, same⟩

namespace DecodeSample

/-- Calls a function that is not there if the first byte is not zero. -/
def marked : Setting where
  schema := {
    byteOrder := .big
    templates := []
    spec := [
      .action (.bytesLenient "b" (.uint 2)),
      .branch (.ref "b.0") [.action (.bind "m" (.call [.ref "mark"]))] []] }
  config := .default
  functions := []

end DecodeSample

open DecodeSample in
theorem strict_cuts_off_marked :
    (decode (marked.withStrict true) [0]).result = (decode (marked.withStrict false) [0]).result ∧
    (decode (marked.withStrict true) [1]).result = .error (.failed (.unknownFunction "mark")) ∧
    (decode (marked.withStrict true) [1]).diagnostics = [.truncated "bytes_lenient" 2 1 0] := by
  have uncalled : (decode (marked.withStrict false) [0]).diagnostics =
    [.truncated "bytes_lenient" 2 1 0] := by decide +kernel
  have called : (decode (marked.withStrict false) [1]).diagnostics =
    [.truncated "bytes_lenient" 2 1 0, .unknownFunction "mark" 1] := by decide +kernel
  have known : KnownCalls [.truncated "bytes_lenient" 2 1 0] := by simp [KnownCalls]
  obtain ⟨same, -⟩ := (strict_cuts_off marked [0]).1 (uncalled ▸ known)
  exact ⟨same, (strict_cuts_off marked [1]).2 _ "mark" 1 [] known called⟩

end ByteSchema
