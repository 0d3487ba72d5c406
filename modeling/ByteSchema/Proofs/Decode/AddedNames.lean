import ByteSchema.Proofs.Decode.Termination
import ByteSchema.Proofs.Decode.UnknownCalls

/-!
# More templates and functions

Names are only ever looked up, so a decode that finds all the names it asks for does not notice that
there are more: `added_names_unseen`. A function that is missing shows only in a report, and the
decode goes on; so it is the strict decode, which ends there, that is set beside the one with more
names.
-/

namespace ByteSchema

/-- `B` has every template and every function of `A` under the same name, and maybe more. -/
structure Setting.Extends (A B : Setting) : Prop where
  byteOrder : B.schema.byteOrder = A.schema.byteOrder
  spec : B.schema.spec = A.schema.spec
  config : B.config = A.config
  templates {name : String} {template : Template} :
    A.schema.templates.lookup name = some template →
      B.schema.templates.lookup name = some template
  count : A.schema.templates.length ≤ B.schema.templates.length
  functions {name : String} {f : Function} :
    A.functions.get? name = some f → B.functions.get? name = some f

/-- The halt of a decode that misses a name. -/
inductive Halt.IsMissing : Halt → Prop where
  | function (name : String) : IsMissing (.failed (.unknownFunction name))
  | template (name : String) : IsMissing (.failed (.unknownTemplate name))

/-- The first decode may miss a name that the second one has. -/
def Sides.missing (data : List UInt8) : Sides :=
  .plain data [] (fun halt _ _ => halt.IsMissing) fun missing _ => missing

variable {A B : Setting} {data : List UInt8}

theorem Env.call_missing {env env' : Env} (strict : env.strict = true)
    (functions : ∀ {name : String} {f : Function}, env.functions.get? name = some f →
      env'.functions.get? name = some f) (name : String) (arguments : List Value) :
    Follows (Sides.missing data).termPace (env.call name arguments) (env'.call name arguments) := by
  refine ⟨env'.call_grows name arguments, fun log log' h => ?_⟩
  cases found : env.functions.get? name with
  | some f =>
    unfold Env.call
    rw [found, functions found]
    exact Eval.ofExcept_follows.pairs log log' h
  | none =>
    have halted : env.call name arguments log = .error (.unknownFunction name) log := by
      unfold Env.call
      rw [found, strict]
      rfl
    rw [halted]
    exact .of_grows (env'.call_grows name arguments) (.function name)

def Pairing.extended (h : A.Extends B) (data : List UInt8) : Pairing (A.withStrict true) B where
  toSides := .missing data
  congruence := .eq
  report _ same := congrArg (· ++ _) same
  short := .inl rfl
  template? name := by
    show B.schema.template? name = A.schema.template? name ∨
      ∃ e, A.schema.template? name = .error e ∧ _
    unfold Schema.template?
    cases found : A.schema.templates.lookup name with
    | some template =>
      rw [h.templates found]
      exact .inl rfl
    | none => exact .inr ⟨_, rfl, fun _ _ _ => .template name⟩
  call _ := Env.call_missing rfl h.functions
  enter := by
    have limit : B.config.maxDepth = A.config.maxDepth := congrArg Config.maxDepth h.config
    exact Block.enter_follows limit

theorem Setting.withStrict_eq {setting : Setting} {strict : Bool}
    (h : setting.config.strictFunctions = strict) : setting.withStrict strict = setting := by
  subst h
  rfl

theorem Setting.Extends.levels_le (h : A.Extends B) : Decoder.levels A ≤ Decoder.levels B := by
  have count := h.count
  unfold Decoder.levels
  rw [h.config]
  split
  · exact Nat.le_refl _
  · omega

theorem Setting.Extends.order (h : A.Extends B) : Decoder.order B = Decoder.order A := by
  rw [Decoder.order, Decoder.order, h.config, h.byteOrder]

namespace Decoder

/-- A decode that reports no unknown function comes to what the strict one comes to. -/
theorem strict_of_knownCalls {setting : Setting}
    (known : KnownCalls (decode setting data).diagnostics) :
    (decode (setting.withStrict true) data).result = (decode setting data).result ∧
      (decode (setting.withStrict true) data).diagnostics = (decode setting data).diagnostics := by
  cases flag : setting.config.strictFunctions with
  | true =>
    rw [Setting.withStrict_eq flag]
    exact ⟨rfl, rfl⟩
  | false =>
    have outcomes : (Sides.firstUnknown data).Outcomes (decode (setting.withStrict true) data)
        (decode (setting.withStrict false) data) :=
      decodeWithin_follows (p := .firstUnknown setting data) (List.append_nil data) (.inl rfl) rfl
        ⟨rfl, fun _ _ => List.not_mem_nil⟩ rfl rfl _
    rw [Setting.withStrict_eq flag] at outcomes
    cases outcomes with
    | level result reported => exact ⟨result.symm, reported.1.symm⟩
    | parted _ parted =>
      obtain ⟨-, name, offset, -, reported⟩ := parted
      exact absurd (reported.subset (by simp)) (known name offset)

theorem outcomes_extended (h : A.Extends B) (data : List UInt8) (levels : Nat) :
    (Sides.missing data).Outcomes (decodeWithin levels (A.withStrict true) data)
      (decodeWithin levels B data) :=
  decodeWithin_follows (p := .extended h data) (List.append_nil data) (.inl rfl) rfl rfl h.spec
    h.order levels

end Decoder

/-- A decode that ends, and misses no name on its way, comes to the same when there are more templates
and more functions. -/
theorem added_names_unseen (A B : Setting) (h : A.Extends B) (data : List UInt8)
    (ended : (decode A data).result ≠ .error .exhausted)
    (known : KnownCalls (decode A data).diagnostics)
    (found : ∀ name, (decode A data).result ≠ .error (.failed (.unknownFunction name)) ∧
      (decode A data).result ≠ .error (.failed (.unknownTemplate name))) :
    (decode B data).result = (decode A data).result ∧
      (decode B data).diagnostics = (decode A data).diagnostics := by
  obtain ⟨result, reports⟩ := Decoder.strict_of_knownCalls known
  have outcomes := Decoder.outcomes_extended h data (Decoder.levels A)
  rw [show Decoder.decodeWithin (Decoder.levels A) (A.withStrict true) data =
    decode (A.withStrict true) data from rfl] at outcomes
  cases outcomes with
  | level result' reported =>
    have same := result'.trans result
    -- More templates may call each other deeper, but this decode needs no more levels than it had.
    have more : decode B data = Decoder.decodeWithin (Decoder.levels A) B data :=
      Decoder.decodeWithin_more h.levels_le (same ▸ ended)
    rw [more]
    exact ⟨same, Eq.trans reported reports⟩
  | parted halted missing =>
    rw [result] at halted
    cases missing with
    | function name => exact absurd halted (found name).1
    | template name => exact absurd halted (found name).2

theorem Table.lookup_added {α : Type} {table : List (String × α)} {key : String} {added : α}
    (fresh : table.lookup key = none) {name : String} {value : α}
    (h : table.lookup name = some value) : ((key, added) :: table).lookup name = some value := by
  have other : name ≠ key := by
    rintro rfl
    cases fresh.symm.trans h
  rw [List.lookup_cons, beq_false_of_ne other, h]

namespace DecodeSample

/-- Calls the template `more` and the function `mark`, which are not there, but only where the first
byte is not zero. -/
def modest : Setting where
  schema := {
    byteOrder := .big
    templates := [("item", ⟨["n"], [.action (.bytesLenient "x" (.ref "n"))]⟩)]
    spec := [
      .action (.uint "n" (.uint 1)),
      .branch (.ref "n")
        [.template "more" (.named []), .action (.bind "m" (.call [.ref "mark"]))]
        [.template "item" (.positional [.uint 2])],
      .action (.bind "l" (.call [.ref "list::length", .ref "x"]))] }
  config := .default
  functions := .builtins

def ample : Setting where
  schema := { modest.schema with templates := ("more", ⟨[], []⟩) :: modest.schema.templates }
  config := .default
  functions := ("mark", fun _ => .ok .undefined) :: Registry.builtins

theorem ample_extends : modest.Extends ample where
  byteOrder := rfl
  spec := rfl
  config := rfl
  templates := Table.lookup_added rfl
  count := by decide
  functions := Table.lookup_added rfl

end DecodeSample

open DecodeSample in
theorem added_names_unseen_ample :
    (decode modest [0, 7]).keys? = some ["n", "x", "l"] ∧
      (decode ample [0, 7]).result = (decode modest [0, 7]).result ∧
      (decode ample [0, 7]).diagnostics = [.truncated "bytes_lenient" 2 1 1] := by
  have keys : (decode modest [0, 7]).keys? = some ["n", "x", "l"] := by decide +kernel
  have reported : (decode modest [0, 7]).diagnostics = [.truncated "bytes_lenient" 2 1 1] := by
    decide +kernel
  obtain ⟨record, ended, -⟩ := Outcome.result_of_keys? keys
  have known : KnownCalls (decode modest [0, 7]).diagnostics := by simp [reported, KnownCalls]
  obtain ⟨same, diagnostics⟩ := added_names_unseen modest ample ample_extends [0, 7]
    (by simp [ended]) known (by simp [ended])
  exact ⟨keys, same, diagnostics.trans reported⟩

end ByteSchema
