import ByteSchema.Proofs.Decode.Outcomes

/-!
# Errors and reports tell the truth

Errors and diagnostics carry offsets and sizes that each place works out for itself, after any
number of moves. `Truthful` says what they have to do with the input, the schema and the setting;
it holds of the error that a decode fails with, and of everything that a decode reports.
-/

namespace ByteSchema

/-! ### Errors -/

/-- What the error says of the input, the schema and the setting is so. -/
def Error.Truthful (setting : Setting) (data : List UInt8) : Error → Prop
  | unexpectedEof offset requested available =>
    offset + available = data.length ∧ available < requested
  | invalidVint offset byte => offset < data.length ∧ data[offset]? = some 0 ∧ byte = 0
  | assertionFailed _ offset => offset ≤ data.length
  | depthExceeded limit => limit = setting.config.maxDepth ∧ 0 < limit
  | unknownTemplate name => ∀ template, (name, template) ∉ setting.schema.templates
  | unknownFunction name =>
    setting.config.strictFunctions = true ∧ setting.functions.contains name = false
  | _ => True

theorem Registry.lacks_of_get? {functions : Registry} {name : String}
    (h : functions.get? name = none) : functions.contains name = false := by
  rw [contains, h]
  rfl

theorem IsComplaint.truthful {setting : Setting} {data : List UInt8} {e : Error}
    (h : IsComplaint e) : e.Truthful setting data := by
  obtain ⟨value, expected, rfl⟩ | ⟨name, message, rfl⟩ := h <;> trivial

/-- A cause makes its error true, if it is none that a function makes up. -/
theorem Cause.truthful {setting : Setting} {data : List UInt8} {e : Error}
    (cause : Cause setting data e)
    (honest : ∀ name f arguments, setting.functions.get? name = some f →
      Fails (Error.Truthful setting data) (f arguments)) :
    e.Truthful setting data := by
  cases cause with
  | term cause =>
    cases cause with
    | eval | noMatch | coercion => trivial
    | unknownFunction strict missing => exact ⟨strict, Registry.lacks_of_get? missing⟩
    | function found failed => exact honest _ _ _ found e failed
  | invalidLength | invalidSchema => trivial
  | unexpectedEof size short => exact ⟨size, short⟩
  | invalidVint zero =>
    have inside := (List.getElem?_eq_some_iff.mp zero).1
    exact ⟨inside, zero, rfl⟩
  | unknownTemplate missing =>
    intro template defined
    have differs := List.lookup_eq_none_iff.mp missing _ defined
    simp at differs
  | assertionFailed _ inside => exact inside
  | depthExceeded limited => exact ⟨rfl, limited⟩

/-- Whatever a decode with the functions on lists fails with, is true: where input is lacking, how
much was left of it; where a byte announces no length, that it is a zero of the input; the limit on
levels, and that the template or the function is not there. -/
theorem errors_truthful (schema : Schema) (config : Config) (levels : Nat) (data : List UInt8)
    (e : Error) (failed : (Decoder.decodeWithin levels ⟨schema, config, .builtins⟩ data).result =
      .error (.failed e)) :
    e.Truthful ⟨schema, config, .builtins⟩ data := by
  have cause := Decoder.cause_of_failed failed
  refine cause.truthful fun name f arguments found => ?_
  exact (Registry.builtins_fails found arguments).imp fun _ => IsComplaint.truthful

/-- Where a decode lacked input: the offset, the bytes that it asked for and those that were left. -/
def Outcome.lack? (o : Outcome) : Option (Nat × Nat × Nat) :=
  match o.result with
  | .error (.failed (.unexpectedEof offset requested available)) =>
    some (offset, requested, available)
  | _ => none

theorem Outcome.result_of_lack? {o : Outcome} {offset requested available : Nat}
    (h : o.lack? = some (offset, requested, available)) :
    o.result = .error (.failed (.unexpectedEof offset requested available)) := by
  unfold lack? at h
  split at h
  · next result =>
    cases h
    exact result
  · cases h

namespace DecodeSample

/-- A region that is read past its end, then an integer with its own length, in a template. -/
def starved : Schema where
  byteOrder := .big
  templates := [("size", ⟨["n"], [
    .bounded "pair" (.ref "n") [.action (.uint "x" (.uint 2))],
    .action (.vintSize "v")]⟩)]
  spec := [.template "size" (.positional [.uint 1])]

end DecodeSample

open DecodeSample in
theorem errors_truthful_starved :
    (Decoder.decodeWithin 1 ⟨starved, .default, .builtins⟩ [1, 2]).result =
      .error (.failed (.unexpectedEof 1 7 1)) ∧
    (Error.unexpectedEof 1 7 1).Truthful ⟨starved, .default, .builtins⟩ [1, 2] := by
  have lack : (Decoder.decodeWithin 1 ⟨starved, .default, .builtins⟩ [1, 2]).lack? =
    some (1, 7, 1) := by decide +kernel
  have failed := Outcome.result_of_lack? lack
  exact ⟨failed, errors_truthful starved .default 1 [1, 2] _ failed⟩

/-! ### Reports -/

/-- What the report says of the input and the setting is so. -/
def Diagnostic.Truthful (setting : Setting) (data : List UInt8) : Diagnostic → Prop
  | unknownFunction name offset => setting.config.strictFunctions = false ∧
    setting.functions.contains name = false ∧ offset ≤ data.length
  | regionOverrun start stop offset => start < stop ∧ stop < offset ∧ offset ≤ data.length
  | stalled node offset =>
    node = "list" ∧ offset ≤ data.length ∨ node = "bounded" ∧ offset < data.length
  | truncated node requested available offset => node = "bytes_lenient" ∧
    offset + available = data.length ∧ available < requested

theorem Grounded.truthful {setting : Setting} {data : List UInt8} {d : Diagnostic}
    (h : Grounded data.length d) : d.Truthful setting data := by
  cases h with
  | overrun wide beyond inside => exact ⟨wide, beyond, inside⟩
  | stalledList inside => exact .inl ⟨rfl, inside⟩
  | stalledRegion inside => exact .inr ⟨rfl, inside⟩
  | truncated size short => exact ⟨rfl, size, short⟩

/-- A decode beside itself, with true reports on both sides. -/
def Sides.truthful (setting : Setting) (data : List UInt8) : Sides :=
  { Sides.equal data with
    reported := fun ds ds' => ds' = ds ∧ ∀ d ∈ ds, d.Truthful setting data }

variable {setting : Setting} {data : List UInt8}

theorem Sides.truthful_report {d : Diagnostic} {ds ds' : List Diagnostic}
    (h : (Sides.truthful setting data).reported ds ds') (hd : d.Truthful setting data) :
    (Sides.truthful setting data).reported (ds ++ [d]) (ds' ++ [d]) := by
  obtain ⟨rfl, reported⟩ := h
  refine ⟨rfl, fun d' hd' => ?_⟩
  obtain hd' | hd' := List.mem_append.mp hd'
  · exact reported d' hd'
  · obtain rfl := List.mem_singleton.mp hd'
    exact hd

def Pairing.truthful (setting : Setting) (data : List UInt8) : Pairing setting setting where
  toSides := .truthful setting data
  congruence := .eq
  report grounded h := Sides.truthful_report h grounded.truthful
  short := .inl rfl
  template? _ := .inl rfl
  call {s s'} hs := Env.call_follows rfl rfl fun name lenient missing ds ds' reported => by
    have offset : (Run.env setting s').offset = (Run.env setting s).offset := hs.offset
    have inside : s.cursor.offset ≤ s.cursor.data.length := hs.inside
    rw [hs.data] at inside
    rw [offset]
    exact Sides.truthful_report reported ⟨lenient, Registry.lacks_of_get? missing, inside⟩
  enter := Block.enter_follows rfl

/-- Every report of a decode is true, also of one that fails. -/
theorem reports_truthful (setting : Setting) (levels : Nat) (data : List UInt8) :
    ∀ d ∈ (Decoder.decodeWithin levels setting data).diagnostics, d.Truthful setting data := by
  have outcomes : (Sides.truthful setting data).Outcomes (Decoder.decodeWithin levels setting data)
      (Decoder.decodeWithin levels setting data) :=
    Decoder.decodeWithin_follows (p := .truthful setting data) (List.append_nil data) (.inl rfl)
      rfl ⟨rfl, List.forall_mem_nil _⟩ rfl rfl levels
  cases outcomes with
  | level _ reported => exact reported.2
  | parted _ never => exact never.elim

namespace DecodeSample

/-- Reports at every occasion, and fails in the end. -/
def noisy : Setting where
  schema := {
    byteOrder := .big
    templates := []
    spec := [
      .bounded "over" (.uint 1) [.action (.uint "x" (.uint 2))],
      .bounded "idle" (.uint 1) [.action (.bind "y" (.bool true))],
      .list "rest" [] none (some (.bool false)) none none,
      .action (.bind "z" (.call [.ref "mark"])),
      .action (.bytesLenient "tail" (.uint 5)),
      .action (.assert (.bool false) "end")] }
  config := .default
  functions := []

end DecodeSample

open DecodeSample in
theorem reports_truthful_noisy :
    (Decoder.decodeWithin 0 noisy [1, 2, 3]).diagnostics = [.regionOverrun 0 1 2,
      .stalled "bounded" 1, .stalled "list" 2, .unknownFunction "mark" 2,
      .truncated "bytes_lenient" 5 1 2] ∧
    (Diagnostic.regionOverrun 0 1 2).Truthful noisy [1, 2, 3] ∧
    (Diagnostic.truncated "bytes_lenient" 5 1 2).Truthful noisy [1, 2, 3] := by
  have reported : (Decoder.decodeWithin 0 noisy [1, 2, 3]).diagnostics = [.regionOverrun 0 1 2,
    .stalled "bounded" 1, .stalled "list" 2, .unknownFunction "mark" 2,
    .truncated "bytes_lenient" 5 1 2] := by decide +kernel
  have truthful := reports_truthful noisy 0 [1, 2, 3]
  rw [reported] at truthful
  exact ⟨reported, truthful _ List.mem_cons_self, truthful _ (by simp)⟩

end ByteSchema
