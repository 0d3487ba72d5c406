import ByteSchema.Decode.Decoder
import ByteSchema.Proofs.Decode.Ends
import ByteSchema.Proofs.Decode.Nodes

/-!
# What blocks see of the schema

A block asks the schema for the templates that it calls and for nothing else. So it runs the same in
two schemas when the calls in it do: `runAll_withSchema`.
-/

namespace ByteSchema

def Setting.withSchema (schema : Schema) (setting : Setting) : Setting :=
  { setting with schema := schema }

theorem Setting.schema_withSchema (schema : Schema) (setting : Setting) :
    (setting.withSchema schema).schema = schema :=
  rfl

theorem Node.mem_nested_of_mem_child {node child inner : Node} (hchild : child ∈ node.children)
    (hinner : inner ∈ child.nested) : inner ∈ node.nested := by
  rw [node.nested_eq]
  exact .tail _ (List.mem_flatMap.mpr ⟨child, hchild, hinner⟩)

namespace Block

variable {setting : Setting} {schema : Schema} {call call' : Call}

/-- Calls of `name` run the same in the other schema, with the calls inside them. -/
def SameCalls (setting : Setting) (schema : Schema) (call call' : Call) (name : String) : Prop :=
  ∀ arguments, runTemplate (setting.withSchema schema) call' name arguments =
    runTemplate setting call name arguments

theorem action_withSchema (a : Action) : a.run (setting.withSchema schema) = a.run setting := by
  cases a <;> rfl

theorem bindAll_withSchema (frame : Record) (terms : List (String × Term)) :
    bindAll (setting.withSchema schema) frame terms = bindAll setting frame terms := by
  induction terms generalizing frame with
  | nil => rfl
  | cons _ _ ih => exact congrArg _ (funext fun v => ih _)

theorem invoke_withSchema {name : String} {parameters : List String} {arguments : Arguments}
    {body : Run Unit} : invoke (setting.withSchema schema) name parameters arguments body =
      invoke setting name parameters arguments body := by
  cases arguments <;> simp only [invoke, bind, bindAll_withSchema]

theorem runAll_congr {A B : Setting} {nodes : List Node}
    (h : ∀ node ∈ nodes, runNode A call node = runNode B call' node) :
    runAll A call nodes = runAll B call' nodes := by
  induction nodes with
  | nil => rfl
  | cons node rest ih =>
    obtain ⟨hnode, hrest⟩ := List.forall_mem_cons.mp h
    rw [runAll, runAll, hnode, ih hrest]

theorem runAll_singleton (node : Node) : runAll setting call [node] = runNode setting call node := by
  rw [runAll, runAll]
  exact bind_pure_unit

theorem runNode_withSchema (node : Node)
    (h : ∀ name arguments, .template name arguments ∈ node.nested →
      SameCalls setting schema call call' name) :
    runNode (setting.withSchema schema) call' node = runNode setting call node := by
  induction node using Node.induct with
  | step node ih =>
    have block {spec : List Node} (hspec : ∀ child ∈ spec, child ∈ node.children) :
        run (setting.withSchema schema) call' spec = run setting call spec :=
      congrArg (nested setting) (runAll_congr fun child hchild =>
        ih child (hspec child hchild) fun name arguments hname =>
          h name arguments (Node.mem_nested_of_mem_child (hspec child hchild) hname))
    cases node with
    | action a => exact action_withSchema a
    | list id items count stopWhen readUntil emitWhen =>
      exact congrArg (runList setting id count (stopWhen.or readUntil) emitWhen)
        (block fun _ h => h)
    | template name arguments => exact h name arguments (Node.self_mem_nested _) arguments
    | branch condition spec otherwise =>
      have hspec : run (setting.withSchema schema) call' spec = run setting call spec :=
        block fun _ => List.mem_append_left _
      have hotherwise : run (setting.withSchema schema) call' otherwise =
          run setting call otherwise := block fun _ => List.mem_append_right _
      show (do
          if ← Run.evalTruth setting condition then run (setting.withSchema schema) call' spec
          else run (setting.withSchema schema) call' otherwise) = (do
          if ← Run.evalTruth setting condition then run setting call spec
          else run setting call otherwise)
      rw [hspec, hotherwise]
    | switch on cases default =>
      rw [runNode_switch, runNode_switch]
      refine congrArg (Run.eval setting on >>= ·) (funext fun v => ?_)
      dsimp only
      cases hspec : Node.chosen v.display cases default with
      | some spec => exact block fun _ => Node.mem_children_of_chosen hspec
      | none => rfl
    | bounded id length spec => exact congrArg (runBounded setting id length) (block fun _ h => h)
    | withByteOrder order spec => exact congrArg (inOrder order) (block fun _ h => h)

theorem runAll_withSchema {nodes : List Node}
    (h : ∀ name arguments, .template name arguments ∈ nodes.flatMap Node.nested →
      SameCalls setting schema call call' name) :
    runAll (setting.withSchema schema) call' nodes = runAll setting call nodes :=
  runAll_congr fun node hnode => runNode_withSchema node fun name arguments hname =>
    h name arguments (List.mem_flatMap.mpr ⟨node, hnode, hname⟩)

end Block

end ByteSchema
