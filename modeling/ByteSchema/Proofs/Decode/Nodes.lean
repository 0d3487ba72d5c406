import ByteSchema.Decode.Block
import ByteSchema.Proofs.Value.Record

/-!
# Nodes inside nodes

`Node.induct` is induction on nodes by their children. `Occurs` also follows template calls, so
that it covers all the nodes that running a block can come to.
-/

namespace ByteSchema

namespace Node

/-- The nodes of the blocks of a node. -/
def children : Node → List Node
  | .action _ | .template .. => []
  | .list _ items .. => items
  | .branch _ spec otherwise => spec ++ otherwise
  | .switch _ cases default => cases.flatMap (fun c => c.2) ++ default.getD []
  | .bounded _ _ spec | .withByteOrder _ spec => spec

mutual

theorem induct_node {motive : Node → Prop}
    (step : ∀ node, (∀ child ∈ node.children, motive child) → motive node) :
    (node : Node) → motive node
  | .action _ | .template .. => step _ (List.forall_mem_nil _)
  | .list _ items .. => step _ (induct_all step items)
  | .branch _ spec otherwise =>
    step _ (List.forall_mem_append.mpr ⟨induct_all step spec, induct_all step otherwise⟩)
  | .switch _ cases default =>
    step _ (List.forall_mem_append.mpr ⟨induct_cases step cases, induct_default step default⟩)
  | .bounded _ _ spec | .withByteOrder _ spec => step _ (induct_all step spec)

theorem induct_all {motive : Node → Prop}
    (step : ∀ node, (∀ child ∈ node.children, motive child) → motive node) :
    (nodes : List Node) → ∀ node ∈ nodes, motive node
  | [] => List.forall_mem_nil _
  | node :: rest => List.forall_mem_cons.mpr ⟨induct_node step node, induct_all step rest⟩

theorem induct_cases {motive : Node → Prop}
    (step : ∀ node, (∀ child ∈ node.children, motive child) → motive node) :
    (cases : List (String × List Node)) → ∀ node ∈ cases.flatMap (fun c => c.2), motive node
  | [] => List.forall_mem_nil _
  | (_, spec) :: rest =>
    List.forall_mem_append.mpr ⟨induct_all step spec, induct_cases step rest⟩

theorem induct_default {motive : Node → Prop}
    (step : ∀ node, (∀ child ∈ node.children, motive child) → motive node) :
    (default : Option (List Node)) → ∀ node ∈ default.getD [], motive node
  | none => List.forall_mem_nil _
  | some spec => induct_all step spec

end

/-- What passes from the children of a node to the node holds of every node. -/
theorem induct {motive : Node → Prop}
    (step : ∀ node, (∀ child ∈ node.children, motive child) → motive node) (node : Node) :
    motive node :=
  induct_node step node

mutual

/-- The node and all the nodes inside it. -/
def nested : Node → List Node
  | node@(.action _) | node@(.template ..) => [node]
  | node@(.list _ items ..) => node :: nestedAll items
  | node@(.branch _ spec otherwise) => node :: (nestedAll spec ++ nestedAll otherwise)
  | node@(.switch _ cases default) => node :: (nestedCases cases ++ nestedDefault default)
  | node@(.bounded _ _ spec) | node@(.withByteOrder _ spec) => node :: nestedAll spec

def nestedAll : List Node → List Node
  | [] => []
  | node :: rest => nested node ++ nestedAll rest

def nestedCases : List (String × List Node) → List Node
  | [] => []
  | (_, spec) :: rest => nestedAll spec ++ nestedCases rest

def nestedDefault : Option (List Node) → List Node
  | none => []
  | some spec => nestedAll spec

end

theorem nestedAll_eq (nodes : List Node) : nestedAll nodes = nodes.flatMap nested := by
  induction nodes with
  | nil => rfl
  | cons node rest ih => rw [nestedAll, ih, List.flatMap_cons]

theorem nestedCases_eq (cases : List (String × List Node)) :
    nestedCases cases = (cases.flatMap fun c => c.2).flatMap nested := by
  induction cases with
  | nil => rfl
  | cons c rest ih =>
    rw [nestedCases, ih, nestedAll_eq, List.flatMap_cons, List.flatMap_append]

theorem nested_eq (node : Node) : node.nested = node :: node.children.flatMap nested := by
  cases node with
  | action | template => rfl
  | switch on cases default =>
    rw [nested, children, List.flatMap_append, nestedCases_eq]
    cases default with
    | none => rfl
    | some spec => rw [nestedDefault, nestedAll_eq, Option.getD_some]
  | branch condition spec otherwise =>
    rw [nested, children, List.flatMap_append, nestedAll_eq, nestedAll_eq]
  | list | bounded | withByteOrder => rw [nested, children, nestedAll_eq]

theorem self_mem_nested (node : Node) : node ∈ node.nested := by
  rw [nested_eq]
  exact List.mem_cons_self

/-- What is inside a node has its children inside the node too. -/
theorem mem_nested_of_child {node outer child : Node} (houter : outer ∈ node.nested)
    (hchild : child ∈ outer.children) : child ∈ node.nested := by
  induction node using Node.induct with
  | step node ih =>
    rw [nested_eq] at houter ⊢
    refine .tail _ (List.mem_flatMap.mpr ?_)
    cases houter with
    | head => exact ⟨child, hchild, child.self_mem_nested⟩
    | tail _ houter =>
      obtain ⟨inner, hinner, houter⟩ := List.mem_flatMap.mp houter
      exact ⟨inner, hinner, ih inner hinner houter⟩

/-- The block that a `switch` runs for a key. -/
def chosen (key : String) (cases : List (String × List Node)) (default : Option (List Node)) :
    Option (List Node) :=
  (cases.lookup key).or (default.or (cases.lookup "default"))

theorem mem_of_lookup {key : String} {cases : List (String × List Node)} {spec : List Node}
    (h : cases.lookup key = some spec) {node : Node} (hnode : node ∈ spec) :
    node ∈ cases.flatMap fun c => c.2 :=
  List.mem_flatMap.mpr ⟨(key, spec), Table.mem_of_lookup h, hnode⟩

theorem mem_children_of_chosen {key : String} {on : Term} {cases : List (String × List Node)}
    {default : Option (List Node)} {spec : List Node} (h : chosen key cases default = some spec)
    {node : Node} (hnode : node ∈ spec) : node ∈ (Node.switch on cases default).children := by
  simp only [children, List.mem_append]
  simp only [chosen, Option.or_eq_some_iff] at h
  obtain h | ⟨-, rfl | ⟨-, h⟩⟩ := h
  · exact .inl (mem_of_lookup h hnode)
  · exact .inr hnode
  · exact .inl (mem_of_lookup h hnode)

end Node

namespace Block

variable {setting : Setting} {call : Call}

/-- Looking through the cases for a key, whatever is made of their blocks. -/
theorem eq_map_lookup {α : Type} {key : String} {f : List Node → α}
    {pick : List (String × List Node) → Option α} (nil : pick [] = none)
    (cons : ∀ name spec rest,
      pick ((name, spec) :: rest) = if name = key then some (f spec) else pick rest)
    (cases : List (String × List Node)) : pick cases = (cases.lookup key).map f := by
  induction cases with
  | nil => exact nil
  | cons c rest ih =>
    obtain ⟨name, spec⟩ := c
    rw [cons, List.lookup_cons]
    by_cases h : name = key
    · rw [if_pos h, h, beq_self_eq_true]
      rfl
    · rw [if_neg h, ih, beq_false_of_ne (Ne.symm h)]

theorem runCase_eq (key : String) (cases : List (String × List Node)) :
    runCase setting call key cases = (cases.lookup key).map (run setting call) :=
  eq_map_lookup rfl (fun _ _ _ => rfl) cases

theorem runDefault_eq (default : Option (List Node)) :
    runDefault setting call default = default.map (run setting call) := by
  cases default <;> rfl

theorem map_chosen {α : Type} (f : List Node → α) (key : String)
    (cases : List (String × List Node)) (default : Option (List Node)) :
    ((cases.lookup key).map f).or ((default.map f).or ((cases.lookup "default").map f)) =
      (Node.chosen key cases default).map f := by
  rw [← Option.map_or, ← Option.map_or, Node.chosen]

theorem runNode_switch (on : Term) (cases : List (String × List Node))
    (default : Option (List Node)) : runNode setting call (.switch on cases default) = (do
      let key := (← Run.eval setting on).display
      match (Node.chosen key cases default).map (run setting call) with
      | some body => body
      | none => Run.log (.unmatched key)) := by
  have choice (key : String) : (match (runCase setting call key cases).or
        ((runDefault setting call default).or (runCase setting call "default" cases)) with
      | some body => body
      | none => Run.log (.unmatched key)) =
      match (Node.chosen key cases default).map (run setting call) with
      | some body => body
      | none => Run.log (.unmatched key) := by
    rw [runCase_eq, runCase_eq, runDefault_eq, map_chosen]
  rw [runNode]
  exact congrArg _ (funext fun v => choice v.display)

end Block

/-! ### Nodes that a block can come to -/

/-- `node` is one of `nodes`, inside one of them, or in a template that they reach by calls. -/
inductive Occurs (schema : Schema) : List Node → Node → Prop where
  | here {nodes : List Node} {node : Node} : node ∈ nodes → Occurs schema nodes node
  | inside {nodes : List Node} {outer node : Node} : Occurs schema nodes outer →
      node ∈ outer.children → Occurs schema nodes node
  | called {nodes : List Node} {name : String} {arguments : Arguments} {template : Template}
      {node : Node} : Occurs schema nodes (.template name arguments) →
      schema.template? name = .ok template → node ∈ template.spec → Occurs schema nodes node

theorem Occurs.trans {schema : Schema} {nodes inner : List Node} {node : Node}
    (hinner : ∀ m ∈ inner, Occurs schema nodes m) (h : Occurs schema inner node) :
    Occurs schema nodes node := by
  induction h with
  | here hmem => exact hinner _ hmem
  | inside _ hchild ih => exact .inside ih hchild
  | called _ htemplate hmem ih => exact .called ih htemplate hmem

theorem Occurs.of_member {schema : Schema} {nodes : List Node} {outer node : Node}
    (houter : outer ∈ nodes) (h : Occurs schema [outer] node) : Occurs schema nodes node := by
  refine h.trans fun m hm => ?_
  obtain rfl := List.mem_singleton.mp hm
  exact .here houter

theorem Occurs.of_child {schema : Schema} {outer child node : Node}
    (hchild : child ∈ outer.children) (h : Occurs schema [child] node) :
    Occurs schema [outer] node := by
  refine h.trans fun m hm => ?_
  obtain rfl := List.mem_singleton.mp hm
  exact .inside (.here (List.mem_singleton.mpr rfl)) hchild

theorem Schema.mem_templates_of_template? {schema : Schema} {name : String} {template : Template}
    (h : schema.template? name = .ok template) : (name, template) ∈ schema.templates := by
  have found : schema.templates.lookup name = some template := by
    unfold Schema.template? at h
    split at h
    · next found => exact found.trans (congrArg some (Except.ok.inj h))
    · cases h
  exact Table.mem_of_lookup found

/-- All the nodes of a schema, inside each other and in templates. -/
def Schema.nodes (schema : Schema) : List Node :=
  schema.spec.flatMap Node.nested ++
    schema.templates.flatMap fun t => t.2.spec.flatMap Node.nested

/-- The top-level block comes to nodes of the schema only. -/
theorem Occurs.mem_nodes {schema : Schema} {node : Node} (h : Occurs schema schema.spec node) :
    node ∈ schema.nodes := by
  have self {spec : List Node} {node : Node} (hmem : node ∈ spec) :
      node ∈ spec.flatMap Node.nested :=
    List.mem_flatMap.mpr ⟨node, hmem, node.self_mem_nested⟩
  have block {spec : List Node} {outer child : Node} (houter : outer ∈ spec.flatMap Node.nested)
      (hchild : child ∈ outer.children) : child ∈ spec.flatMap Node.nested := by
    obtain ⟨m, hm, houter⟩ := List.mem_flatMap.mp houter
    exact List.mem_flatMap.mpr ⟨m, hm, Node.mem_nested_of_child houter hchild⟩
  induction h with
  | here hmem => exact List.mem_append_left _ (self hmem)
  | inside _ hchild ih =>
    obtain houter | houter := List.mem_append.mp ih
    · exact List.mem_append_left _ (block houter hchild)
    · obtain ⟨t, ht, houter⟩ := List.mem_flatMap.mp houter
      exact List.mem_append_right _ (List.mem_flatMap.mpr ⟨t, ht, block houter hchild⟩)
  | called _ htemplate hmem _ =>
    have defined := Schema.mem_templates_of_template? htemplate
    exact List.mem_append_right _ (List.mem_flatMap.mpr ⟨_, defined, self hmem⟩)

end ByteSchema
