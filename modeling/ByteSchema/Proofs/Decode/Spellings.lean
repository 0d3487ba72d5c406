import ByteSchema.Proofs.Decode.Prefixes
import ByteSchema.Proofs.Decode.Schemas
import Mathlib.Data.List.Forall2

/-!
# Spellings of a schema

A list can end by `read_until` or by `stop_when`, the default of a switch can be a case, and
arguments can go by position or by name. `Respelt` is the least congruence of blocks with these
rules, and a decode does not depend on the spelling: `decode_respelt`.
-/

namespace ByteSchema

/-- Two spellings of a block, where calls are of the templates of `schema`. -/
inductive Respelt (schema : Schema) : List Node → List Node → Prop where
  | readUntil (id : String) (items : List Node) (count : Option Term) (term : Term)
      (emitWhen : Option Term) :
      Respelt schema [.list id items count none (some term) emitWhen]
        [.list id items count (some term) none emitWhen]
  /-- No other case has the key. -/
  | defaultCase (on : Term) {before after : List (String × List Node)} (spec : List Node) :
      (before ++ after).lookup "default" = none →
      Respelt schema [.switch on (before ++ after) (some spec)]
        [.switch on (before ++ ("default", spec) :: after) none]
  /-- The first parameters give the names, in order. -/
  | positional {name : String} {template : Template} {terms : List Term} :
      schema.template? name = .ok template → terms.length ≤ template.parameters.length →
      Respelt schema [.template name (.positional terms)]
        [.template name (.named (template.parameters.zip terms))]
  | refl (nodes : List Node) : Respelt schema nodes nodes
  | symm {a b : List Node} : Respelt schema a b → Respelt schema b a
  | trans {a b c : List Node} : Respelt schema a b → Respelt schema b c → Respelt schema a c
  | append {a a' b b' : List Node} : Respelt schema a a' → Respelt schema b b' →
      Respelt schema (a ++ b) (a' ++ b')
  | list (id : String) {items items' : List Node} (count stopWhen readUntil emitWhen : Option Term) :
      Respelt schema items items' →
      Respelt schema [.list id items count stopWhen readUntil emitWhen]
        [.list id items' count stopWhen readUntil emitWhen]
  | branch (condition : Term) {spec spec' otherwise otherwise' : List Node} :
      Respelt schema spec spec' → Respelt schema otherwise otherwise' →
      Respelt schema [.branch condition spec otherwise] [.branch condition spec' otherwise']
  | switchCase (on : Term) (before : List (String × List Node)) (key : String)
      {spec spec' : List Node} (after : List (String × List Node)) (default : Option (List Node)) :
      Respelt schema spec spec' →
      Respelt schema [.switch on (before ++ (key, spec) :: after) default]
        [.switch on (before ++ (key, spec') :: after) default]
  | switchDefault (on : Term) (cases : List (String × List Node)) {spec spec' : List Node} :
      Respelt schema spec spec' →
      Respelt schema [.switch on cases (some spec)] [.switch on cases (some spec')]
  | bounded (id : String) (length : Term) {spec spec' : List Node} : Respelt schema spec spec' →
      Respelt schema [.bounded id length spec] [.bounded id length spec']
  | withByteOrder (order : ByteOrder) {spec spec' : List Node} : Respelt schema spec spec' →
      Respelt schema [.withByteOrder order spec] [.withByteOrder order spec']

structure Template.Respelt (schema : Schema) (t t' : Template) : Prop where
  parameters : t'.parameters = t.parameters
  spec : ByteSchema.Respelt schema t.spec t'.spec

/-- The same templates and nodes, in other spellings. -/
structure Schema.Respelt (schema schema' : Schema) : Prop where
  byteOrder : schema'.byteOrder = schema.byteOrder
  templates : List.Forall₂ (fun t t' => t'.1 = t.1 ∧ t.2.Respelt schema t'.2)
    schema.templates schema'.templates
  spec : ByteSchema.Respelt schema schema.spec schema'.spec

theorem Respelt.length_eq {schema : Schema} {a b : List Node} (h : Respelt schema a b) :
    b.length = a.length := by
  induction h with
  | symm _ ih => exact ih.symm
  | trans _ _ ih ih' => exact ih'.trans ih
  | append _ _ ih ih' => rw [List.length_append, List.length_append, ih, ih']
  | _ => rfl

theorem Table.lookup_forall₂ {α β : Type} {r : α → β → Prop} {table : List (String × α)}
    {table' : List (String × β)}
    (h : List.Forall₂ (fun x y => y.1 = x.1 ∧ r x.2 y.2) table table') (key : String) :
    Option.Rel r (table.lookup key) (table'.lookup key) := by
  induction h with
  | nil => exact .none
  | @cons x y _ _ entry _ ih =>
    rw [List.lookup_cons, List.lookup_cons, entry.1]
    split
    · exact .some entry.2
    · exact ih

/-! ### The rules -/

theorem Node.chosen_defaultCase (key : String) {before after : List (String × List Node)}
    (spec : List Node) (fresh : (before ++ after).lookup "default" = none) :
    chosen key (before ++ ("default", spec) :: after) none =
      chosen key (before ++ after) (some spec) := by
  simp only [List.lookup_append, Option.or_eq_none_iff] at fresh
  obtain ⟨hbefore, hafter⟩ := fresh
  by_cases h : key = "default"
  · subst h
    simp [chosen, List.lookup_append, hbefore, hafter]
  · simp [chosen, List.lookup_append, List.lookup_cons, hbefore, beq_false_of_ne h]

/-- Cases that run alike where they stand are alike to whatever key is looked for. -/
theorem Node.map_chosen_switchCase {α : Type} (f : List Node → α) (key name : String)
    (before : List (String × List Node)) {spec spec' : List Node}
    (after : List (String × List Node)) (default : Option (List Node)) (h : f spec = f spec') :
    (chosen key (before ++ (name, spec) :: after) default).map f =
      (chosen key (before ++ (name, spec') :: after) default).map f := by
  have found (key : String) : ((before ++ (name, spec) :: after).lookup key).map f =
      ((before ++ (name, spec') :: after).lookup key).map f := by
    rw [List.lookup_append, List.lookup_append, Option.map_or, Option.map_or, List.lookup_cons,
      List.lookup_cons]
    cases key == name with
    | true => simp [h]
    | false => rfl
  simp only [chosen, Option.map_or, found]

namespace Block

variable {setting : Setting} {call : Call}

theorem bind_positional (name : String) {parameters : List String} {terms : List Term}
    (h : terms.length ≤ parameters.length) :
    bind setting name parameters (.positional terms) =
      bind setting name parameters (.named (parameters.zip terms)) := by
  simp only [bind]
  rw [if_neg (Nat.not_lt_of_le h)]

theorem runTemplate_positional {name : String} {template : Template} {terms : List Term}
    (found : setting.schema.template? name = .ok template)
    (h : terms.length ≤ template.parameters.length) :
    runTemplate setting call name (.positional terms) =
      runTemplate setting call name (.named (template.parameters.zip terms)) := by
  have bound : invoke setting name template.parameters (.positional terms) (call template) =
      invoke setting name template.parameters (.named (template.parameters.zip terms))
        (call template) := by
    rw [invoke, invoke, bind_positional name h]
  rw [runTemplate_eq, runTemplate_eq, found]
  exact bound

theorem runNode_switch_congr (on : Term) {cases cases' : List (String × List Node)}
    {default default' : Option (List Node)}
    (h : ∀ key, (Node.chosen key cases default).map (run setting call) =
      (Node.chosen key cases' default').map (run setting call)) :
    runNode setting call (.switch on cases default) =
      runNode setting call (.switch on cases' default') := by
  rw [runNode_switch, runNode_switch]
  simp only [h]

/-- A block runs the same in every spelling. -/
theorem runAll_respelt {nodes nodes' : List Node} (h : Respelt setting.schema nodes nodes') :
    runAll setting call nodes = runAll setting call nodes' := by
  induction h with
  | refl => rfl
  | symm _ ih => exact ih.symm
  | trans _ _ ih ih' => exact ih.trans ih'
  | append _ _ ih ih' => rw [runAll_append, runAll_append, ih, ih']
  | readUntil => rfl
  | defaultCase on spec fresh =>
    rw [runAll_singleton, runAll_singleton]
    refine runNode_switch_congr on fun key => ?_
    rw [Node.chosen_defaultCase key spec fresh]
  | positional found enough =>
    rw [runAll_singleton, runAll_singleton]
    exact runTemplate_positional found enough
  | list id count stopWhen readUntil emitWhen _ ih =>
    rw [runAll_singleton, runAll_singleton, runNode, runNode, ih]
  | branch condition _ _ ih ih' =>
    rw [runAll_singleton, runAll_singleton, runNode, runNode, ih, ih']
  | switchCase on before name after default _ ih =>
    rw [runAll_singleton, runAll_singleton]
    refine runNode_switch_congr on fun key => ?_
    exact Node.map_chosen_switchCase _ key name before after default (congrArg (nested setting) ih)
  | switchDefault on cases _ ih =>
    rw [runAll_singleton, runAll_singleton]
    refine runNode_switch_congr on fun key => ?_
    simp only [Node.chosen, Option.map_or, Option.map_some, run, ih]
  | bounded id length _ ih => rw [runAll_singleton, runAll_singleton, runNode, runNode, ih]
  | withByteOrder order _ ih => rw [runAll_singleton, runAll_singleton, runNode, runNode, ih]

variable {schema : Schema}

theorem runTemplate_respelt {call' : Call} (h : setting.schema.Respelt schema)
    (calls : ∀ {t t' : Template}, t.Respelt setting.schema t' → call' t' = call t)
    (name : String) : SameCalls setting schema call call' name := by
  intro arguments
  have found := Table.lookup_forall₂ h.templates name
  rw [runTemplate_eq, runTemplate_eq, Setting.schema_withSchema, Schema.template?, Schema.template?]
  generalize setting.schema.templates.lookup name = a at found ⊢
  generalize schema.templates.lookup name = b at found ⊢
  cases found with
  | none => rfl
  | @some t t' same =>
    show invoke (setting.withSchema schema) name t'.parameters arguments (call' t') =
      invoke setting name t.parameters arguments (call t)
    rw [invoke_withSchema, same.parameters, calls same]

theorem run_respelt {call' : Call} (calls : ∀ name, SameCalls setting schema call call' name)
    {nodes nodes' : List Node} (h : Respelt setting.schema nodes nodes') :
    run (setting.withSchema schema) call' nodes' = run setting call nodes := by
  have body : runAll (setting.withSchema schema) call' nodes' = runAll setting call nodes := by
    rw [runAll_respelt h]
    exact runAll_withSchema fun name _ _ => calls name
  exact congrArg (nested setting) body

theorem callWithin_respelt (h : setting.schema.Respelt schema) (levels : Nat) {t t' : Template}
    (same : t.Respelt setting.schema t') :
    callWithin (setting.withSchema schema) levels t' = callWithin setting levels t := by
  -- The levels count the calls inside: these are spelt differently as well, and one level deeper.
  induction levels generalizing t t' with
  | zero => rfl
  | succ levels ih => exact run_respelt (runTemplate_respelt h ih) same.spec

end Block

namespace Decoder

variable {setting : Setting} {schema : Schema}

theorem levels_respelt (h : setting.schema.Respelt schema) :
    levels (setting.withSchema schema) = levels setting := by
  unfold levels
  rw [Setting.schema_withSchema, h.templates.length_eq]
  rfl

theorem initial_respelt (h : setting.schema.Respelt schema) (data : List UInt8) :
    initial (setting.withSchema schema) data = initial setting data := by
  unfold initial order
  rw [Setting.schema_withSchema, h.byteOrder]
  rfl

theorem program_respelt (h : setting.schema.Respelt schema) (levels : Nat) :
    program (setting.withSchema schema) levels = program setting levels := by
  have block : Block.run (setting.withSchema schema)
      (Block.callWithin (setting.withSchema schema) levels) schema.spec =
      Block.run setting (Block.callWithin setting levels) setting.schema.spec :=
    Block.run_respelt (Block.runTemplate_respelt h (Block.callWithin_respelt h levels)) h.spec
  unfold program
  rw [Setting.schema_withSchema, h.spec.length_eq, block]

end Decoder

/-- A decode does not depend on the spelling of its schema. -/
theorem decode_respelt (setting : Setting) (schema : Schema) (h : setting.schema.Respelt schema)
    (data : List UInt8) : decode (setting.withSchema schema) data = decode setting data := by
  unfold decode Decoder.decodeWithin
  rw [Decoder.levels_respelt h, Decoder.initial_respelt h, Decoder.program_respelt h]

namespace DecodeSample

/-- Calls a template by position, in the default of a switch. The list in the template is read up to
a zero. -/
def terse : Setting where
  schema := {
    byteOrder := .big
    templates := [("run", ⟨["n"], [
      .list "xs" [.action (.uint "x" (.ref "n"))] none none
        (some (.expr [.ref "x", .op .eq, .uint 0])) none]⟩)]
    spec := [
      .action (.ascii "kind" (.uint 7)),
      .switch (.ref "kind") [("1", [])] (some [.template "run" (.positional [.uint 1])]),
      .action (.bytesLenient "rest" (.uint 2))] }
  config := .default
  functions := []

def spelt : Schema where
  byteOrder := .big
  templates := [("run", ⟨["n"], [
    .list "xs" [.action (.uint "x" (.ref "n"))] none
      (some (.expr [.ref "x", .op .eq, .uint 0])) none none]⟩)]
  spec := [
    .action (.ascii "kind" (.uint 7)),
    .switch (.ref "kind")
      [("1", []), ("default", [.template "run" (.named [("n", .uint 1)])])] none,
    .action (.bytesLenient "rest" (.uint 2))]

theorem terse_respelt : terse.schema.Respelt spelt where
  byteOrder := rfl
  templates := .cons ⟨rfl, rfl, .readUntil _ _ _ _ _⟩ .nil
  spec := by
    have found : terse.schema.template? "run" = .ok ⟨["n"], _⟩ := rfl
    have named : Respelt terse.schema [.template "run" (.positional [.uint 1])]
        [.template "run" (.named [("n", .uint 1)])] := .positional found (Nat.le_refl 1)
    have fresh : ([("1", [])] ++ [] : List (String × List Node)).lookup "default" = none := rfl
    have switched : Respelt terse.schema
        [.switch (.ref "kind") [("1", [])] (some [.template "run" (.positional [.uint 1])])]
        [.switch (.ref "kind")
          [("1", []), ("default", [.template "run" (.named [("n", .uint 1)])])] none] :=
      .trans (.switchDefault _ _ named) (.defaultCase _ _ fresh)
    exact .append (.refl [_]) (.append switched (.refl [_]))

end DecodeSample

open DecodeSample in
/-- The text that the switch looks for is "default". -/
theorem decode_respelt_default :
    (decode (terse.withSchema spelt) ("default".toUTF8.toList ++ [3, 0, 9])).keys? =
        some ["kind", "xs", "rest"] ∧
      (decode (terse.withSchema spelt) ("default".toUTF8.toList ++ [3, 0, 9])).diagnostics =
        [.truncated "bytes_lenient" 2 1 9] := by
  rw [decode_respelt terse spelt terse_respelt]
  decide +kernel

end ByteSchema
