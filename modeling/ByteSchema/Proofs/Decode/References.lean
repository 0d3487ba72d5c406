import ByteSchema.Proofs.Decode.Nodes
import ByteSchema.Proofs.Decode.Operations
import ByteSchema.Proofs.Text.Split

/-!
# What terms refer to

A term sees of the records what they hold at its references, and nothing else: `evaluate_congr`.
Where a reference is a name, this is a field of the first record that has one of this name:
`resolve_name`.
-/

namespace ByteSchema

namespace Term

mutual

/-- The paths that are looked up. A function that is named outright is not. -/
def references : Term → List String
  | ref path => [path]
  | uint _ | text _ | bool _ | op _ => []
  | expr terms => referencesAll terms
  | call children => referencesCall children
  | select condition cases => condition.references ++ referencesCases cases

def referencesAll : List Term → List String
  | [] => []
  | term :: rest => term.references ++ referencesAll rest

def referencesCall : List Term → List String
  | [] => []
  | callee :: arguments =>
    (if callee.calleeName?.isSome then [] else callee.references) ++ referencesAll arguments

def referencesCases : List (Term × Term) → List String
  | [] => []
  | (literal, result) :: rest =>
    literal.references ++ result.references ++ referencesCases rest

end

end Term

variable {env : Env} {resolve : String → Value}

/-- Nothing changes at the paths. -/
def Env.Holds (env : Env) (resolve : String → Value) (paths : List String) : Prop :=
  ∀ path ∈ paths, resolve path = env.resolve path

theorem Env.holds_append {paths more : List String} :
    env.Holds resolve (paths ++ more) ↔ env.Holds resolve paths ∧ env.Holds resolve more :=
  List.forall_mem_append

mutual

theorem evaluate_congr : (term : Term) → env.Holds resolve term.references →
    evaluate { env with resolve := resolve } term = evaluate env term
  | .ref path, h => by
    simp only [evaluate]
    rw [h path (List.mem_singleton.mpr rfl)]
  | .uint _, _ | .text _, _ | .bool _, _ | .op _, _ => rfl
  | .expr terms, h => by
    simp only [evaluate]
    exact evaluateExpr_congr terms h
  | .call children, h => by
    simp only [evaluate]
    exact evaluateCall_congr children h
  | .select condition cases, h => by
    obtain ⟨hcondition, hcases⟩ := Env.holds_append.mp h
    simp only [evaluate, evaluate_congr condition hcondition, select_congr _ cases hcases]

theorem evaluateExpr_congr : (terms : List Term) → env.Holds resolve (Term.referencesAll terms) →
    evaluateExpr { env with resolve := resolve } terms = evaluateExpr env terms
  | [], _ => rfl
  | term :: rest, h => by
    obtain ⟨hterm, hrest⟩ := Env.holds_append.mp h
    simp only [evaluateExpr, evaluate_congr term hterm, reduce_congr _ rest hrest]

theorem reduce_congr (acc : Value) : (terms : List Term) →
    env.Holds resolve (Term.referencesAll terms) →
    reduce { env with resolve := resolve } acc terms = reduce env acc terms
  | [], _ => rfl
  | [head], _ => by
    unfold reduce
    cases head.operator? <;> rfl
  | head :: term :: rest, h => by
    obtain ⟨-, h⟩ := Env.holds_append.mp h
    obtain ⟨hterm, hrest⟩ := Env.holds_append.mp h
    unfold reduce
    cases head.operator? with
    | none => rfl
    | some op => simp only [evaluate_congr term hterm, reduce_congr _ rest hrest]

theorem evaluateCall_congr : (children : List Term) →
    env.Holds resolve (Term.referencesCall children) →
    evaluateCall { env with resolve := resolve } children = evaluateCall env children
  | [], _ => rfl
  | callee :: arguments, h => by
    obtain ⟨hcallee, harguments⟩ := Env.holds_append.mp h
    simp only [evaluateCall, evaluateAll_congr arguments harguments]
    cases named : callee.calleeName? with
    | some name => rfl
    | none =>
      rw [named] at hcallee
      simp only [evaluate_congr callee hcallee]
      rfl

theorem evaluateAll_congr : (terms : List Term) → env.Holds resolve (Term.referencesAll terms) →
    evaluateAll { env with resolve := resolve } terms = evaluateAll env terms
  | [], _ => rfl
  | term :: rest, h => by
    obtain ⟨hterm, hrest⟩ := Env.holds_append.mp h
    simp only [evaluateAll, evaluate_congr term hterm, evaluateAll_congr rest hrest]

theorem select_congr (value : Value) : (cases : List (Term × Term)) →
    env.Holds resolve (Term.referencesCases cases) →
    select { env with resolve := resolve } value cases = select env value cases
  | [], _ => rfl
  | (literal, result) :: rest, h => by
    obtain ⟨h, hrest⟩ := Env.holds_append.mp h
    obtain ⟨hliteral, hresult⟩ := Env.holds_append.mp h
    simp only [select, evaluate_congr literal hliteral, evaluate_congr result hresult,
      select_congr value rest hrest]

end

/-! ### Names -/

/-- A single segment, and not the target itself. -/
def Path.isName (path : String) : Bool := path ≠ "$" && !path.toList.contains '.'

theorem Record.getPath_name {path : String} (h : Path.isName path) (r : Record) :
    r.getPath path = r.get? path := by
  simp only [Path.isName, Bool.and_eq_true, Bool.not_eq_true', List.contains_eq_mem,
    decide_eq_false_iff_not] at h
  rw [getPath, Text.splitOnce_of_notMem h.2]
  simp only [String.ofList_toList]
  cases r.get? path <;> rfl

theorem Scopes.resolve_name {path : String} (h : Path.isName path) (s : Scopes) :
    s.resolve path = (s.visible.findSome? fun r => r.get? path).getD .undefined := by
  have named := h
  simp only [Path.isName, Bool.and_eq_true, decide_eq_true_eq, Bool.not_eq_true',
    List.contains_eq_mem, decide_eq_false_iff_not] at named
  unfold resolve
  split
  · next whole => exact absurd (String.toList_inj.mp whole) named.1
  · next inside =>
    rw [inside] at named
    exact absurd (.tail _ (.head _)) named.2
  · simp only [Record.getPath_name h]

/-- Refers to fields by their names alone. -/
def Term.isPlain (term : Term) : Bool := term.references.all Path.isName

/-! ### The terms of nodes -/

def Arguments.terms : Arguments → List Term
  | positional terms => terms
  | named terms => terms.map Prod.snd

namespace Node

/-- The terms of a node, without those in its blocks. -/
def terms : Node → List Term
  | action a => a.terms
  | list _ _ count stopWhen readUntil emitWhen =>
    count.toList ++ (stopWhen.or readUntil).toList ++ emitWhen.toList
  | template _ arguments => arguments.terms
  | branch condition .. => [condition]
  | switch on .. => [on]
  | bounded _ length _ => [length]
  | withByteOrder .. => []

def isCall : Node → Bool
  | template .. => true
  | action _ | list .. | branch .. | switch .. | bounded .. | withByteOrder .. => false

/-- Calls no template, and refers to fields by their names alone. -/
def isPlain (node : Node) : Bool := !node.isCall && node.terms.all Term.isPlain

end Node

end ByteSchema
