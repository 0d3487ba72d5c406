import ByteSchema.Proofs.Decode.Agree

/-!
# Watched decodes

A watched decode puts `around` around every node that it runs, at every level and in every call.
`decodeWithin_eq` compares it with a decode that is not watched, and may allow it more levels.
-/

namespace ByteSchema

namespace Watched

/-- What a watched decode makes of the run of a node. -/
abbrev Around := Run Unit → Run Unit

open Block in
mutual

def runNode (setting : Setting) (around : Around) (call : Call) : Node → Run Unit
  | .action a => a.run setting
  | .list id items count stopWhen readUntil emitWhen =>
    runList setting id count (stopWhen.or readUntil) emitWhen
      (nested setting (runAll setting around call items))
  | .template name arguments => runTemplate setting call name arguments
  | .branch term spec otherwise => do
    if ← Run.evalTruth setting term then nested setting (runAll setting around call spec)
    else nested setting (runAll setting around call otherwise)
  | .switch on cases fallback => do
    let key := (← Run.eval setting on).display
    match (runCase setting around call key cases).or
        ((runDefault setting around call fallback).or
          (runCase setting around call "default" cases)) with
    | some body => body
    | none => Run.log (.unmatched key)
  | .bounded id length spec =>
    runBounded setting id length (nested setting (runAll setting around call spec))
  | .withByteOrder order spec => inOrder order (nested setting (runAll setting around call spec))

/-- The nodes one after the other, with `around` around each. -/
def runAll (setting : Setting) (around : Around) (call : Call) : List Node → Run Unit
  | [] => pure ()
  | node :: rest => do
    around (runNode setting around call node)
    runAll setting around call rest

def runCase (setting : Setting) (around : Around) (call : Call) (key : String) :
    List (String × List Node) → Option (Run Unit)
  | [] => none
  | (name, spec) :: rest =>
    if name = key then some (nested setting (runAll setting around call spec))
    else runCase setting around call key rest

def runDefault (setting : Setting) (around : Around) (call : Call) :
    Option (List Node) → Option (Run Unit)
  | some spec => some (nested setting (runAll setting around call spec))
  | none => none

end

def run (setting : Setting) (around : Around) (call : Call) (nodes : List Node) : Run Unit :=
  Block.nested setting (runAll setting around call nodes)

def callWithin (setting : Setting) (around : Around) : Nat → Call
  | 0 => fun _ => throw .exhausted
  | levels + 1 => fun template =>
    run setting around (callWithin setting around levels) template.spec

def program (setting : Setting) (around : Around) (levels : Nat) : Run Record := do
  Run.log (.started (← Run.cursor).length (← Run.cursor).order setting.schema.spec.length)
  run setting around (callWithin setting around levels) setting.schema.spec
  let record ← Decoder.root
  let c ← Run.cursor
  Run.log (.completed record.length c.offset c.length)
  return record

def decodeWithin (around : Around) (levels : Nat) (setting : Setting) (data : List UInt8) :
    Outcome :=
  match (program setting around levels).run (Decoder.initial setting data) with
  | .ok record s => ⟨.ok record, s.log⟩
  | .error halt s => ⟨.error halt, s.log⟩

section

variable {setting : Setting} {i : Invariant setting} {lost : Halt → Prop} {around : Around}
  {call call' : Call}

/-- Around a node that keeps the invariant, `around` changes nothing. -/
def Wraps (i : Invariant setting) (lost : Halt → Prop) (around : Around) : Prop :=
  ∀ body body', Keeps i body → Agree i lost body body' → Agree i lost body (around body')

theorem wraps_id : Wraps i lost fun body => body := fun _ _ _ h => h

theorem runCase_eq (key : String) (cases : List (String × List Node)) :
    runCase setting around call key cases = (cases.lookup key).map (run setting around call) :=
  Block.eq_map_lookup rfl (fun _ _ _ => rfl) cases

theorem runDefault_eq (default : Option (List Node)) :
    runDefault setting around call default = default.map (run setting around call) := by
  cases default <;> rfl

theorem runNode_switch (on : Term) (cases : List (String × List Node))
    (default : Option (List Node)) : runNode setting around call (.switch on cases default) = (do
      let key := (← Run.eval setting on).display
      match (Node.chosen key cases default).map (run setting around call) with
      | some body => body
      | none => Run.log (.unmatched key)) := by
  have choice (key : String) : (match (runCase setting around call key cases).or
        ((runDefault setting around call default).or
          (runCase setting around call "default" cases)) with
      | some body => body
      | none => Run.log (.unmatched key)) =
      match (Node.chosen key cases default).map (run setting around call) with
      | some body => body
      | none => Run.log (.unmatched key) := by
    rw [runCase_eq, runCase_eq, runDefault_eq, Block.map_chosen]
  rw [runNode]
  exact congrArg _ (funext fun v => choice v.display)

theorem runAll_agree_of (haround : Wraps i lost around) {nodes : List Node}
    (hkeeps : ∀ node ∈ nodes, Keeps i (Block.runNode setting call node))
    (h : ∀ node ∈ nodes, Agree i lost (Block.runNode setting call node)
      (runNode setting around call' node)) :
    Agree i lost (Block.runAll setting call nodes) (runAll setting around call' nodes) := by
  induction nodes with
  | nil => exact .refl
  | cons node rest ih =>
    obtain ⟨hnode, hrest⟩ := List.forall_mem_cons.mp h
    obtain ⟨knode, krest⟩ := List.forall_mem_cons.mp hkeeps
    exact (haround _ _ knode hnode).bind knode fun _ => ih krest hrest

theorem runNode_agree (haround : Wraps i lost around)
    (h : ∀ template, Agree i lost (call template) (call' template)) (node : Node)
    (hcall : Block.CallsKeep i call [node]) :
    Agree i lost (Block.runNode setting call node) (runNode setting around call' node) := by
  induction node using Node.induct with
  | step node ih =>
    have children {spec : List Node} (hspec : ∀ child ∈ spec, child ∈ node.children) :
        ∀ child ∈ spec, Keeps i (Block.runNode setting call child) :=
      fun child hchild => Block.runNode_keeps child (hcall.child (hspec child hchild))
    have keeps {spec : List Node} (hspec : ∀ child ∈ spec, child ∈ node.children) :
        Keeps i (Block.run setting call spec) :=
      Block.nested_keeps (Block.runAll_keeps_of (children hspec))
    have block {spec : List Node} (hspec : ∀ child ∈ spec, child ∈ node.children) :
        Agree i lost (Block.run setting call spec) (run setting around call' spec) :=
      Block.nested_agree (runAll_agree_of haround (children hspec) fun child hchild =>
        ih child (hspec child hchild) (hcall.child (hspec child hchild)))
    cases node with
    | action a => exact .refl
    | list id items count stopWhen readUntil emitWhen =>
      exact Block.runList_agree (keeps fun _ h => h) (block fun _ h => h) id count _ emitWhen
    | template name arguments => exact Block.runTemplate_agree h name arguments
    | branch condition spec otherwise =>
      refine .after ((Keeps.operational i).evalTruth condition) fun b => ?_
      split
      · exact block fun _ => List.mem_append_left _
      · exact block fun _ => List.mem_append_right _
    | switch on cases default =>
      rw [Block.runNode_switch, runNode_switch]
      refine .after ((Keeps.operational i).eval on) fun v => ?_
      dsimp only
      cases hspec : Node.chosen v.display cases default with
      | some spec => exact block fun _ => Node.mem_children_of_chosen hspec
      | none => exact .refl
    | bounded id length spec =>
      exact Block.runBounded_agree (keeps fun _ h => h) (block fun _ h => h) id length
    | withByteOrder order spec => exact Block.inOrder_agree (block fun _ h => h) order

theorem run_agree (haround : Wraps i lost around)
    (h : ∀ template, Agree i lost (call template) (call' template)) {nodes : List Node}
    (hcall : Block.CallsKeep i call nodes) :
    Agree i lost (Block.run setting call nodes) (run setting around call' nodes) :=
  Block.nested_agree (runAll_agree_of haround
    (fun node hnode => Block.runNode_keeps node (hcall.member hnode))
    fun node hnode => runNode_agree haround h node (hcall.member hnode))

theorem callWithin_agree (haround : Wraps i lost around)
    (exhausted : ∀ s, i.before s → i.halts .exhausted s) {levels more : Nat}
    (hmore : levels ≤ more) (hlost : levels < more → lost .exhausted) (template : Template) :
    Agree i lost (Block.callWithin setting levels template)
      (callWithin setting around more template) := by
  induction levels generalizing more template with
  | zero =>
    cases more with
    | zero => exact .refl
    | succ more => exact fun s _ => .inr ⟨.exhausted, s, rfl, hlost (Nat.succ_pos _)⟩
  | succ levels ih =>
    obtain ⟨more, rfl⟩ : ∃ k, more = k + 1 := ⟨more - 1, by omega⟩
    exact run_agree haround
      (ih (Nat.le_of_succ_le_succ hmore) fun h => hlost (Nat.succ_lt_succ h))
      fun _ _ template _ _ => Block.callWithin_keeps exhausted levels template

/-- A decode that is not lost is the same when it is watched, also with more levels. -/
theorem decodeWithin_eq (haround : Wraps i lost around)
    (exhausted : ∀ s, i.before s → i.halts .exhausted s) {levels more : Nat} {data : List UInt8}
    (hstart : i.before (Decoder.started setting data)) (hmore : levels ≤ more)
    (hlost : levels < more → lost .exhausted)
    (kept : ∀ halt, (Decoder.decodeWithin levels setting data).result = .error halt → ¬ lost halt) :
    decodeWithin around more setting data = Decoder.decodeWithin levels setting data := by
  have programs : AgreeAt lost (Decoder.program setting levels) (program setting around more)
      (Decoder.initial setting data) := by
    refine .then fun c s hs => .then fun c' t ht => .then fun _ u hu => ?_
    cases hs
    cases ht
    cases hu
    refine .bind (run_agree haround (callWithin_agree haround exhausted hmore hlost) ?_ _ hstart)
      fun _ _ _ => .refl
    exact fun _ _ template _ _ => Block.callWithin_keeps exhausted levels template
  obtain same | ⟨halt, t, hhalt, hlost⟩ := programs
  · exact congrArg (fun
      | .ok record s => (⟨.ok record, s.log⟩ : Outcome)
      | .error halt s => ⟨.error halt, s.log⟩) same
  · refine absurd hlost (kept halt ?_)
    simp only [Decoder.decodeWithin, EStateM.run, hhalt]

end

/-- Watching alone changes nothing. -/
theorem decodeWithin_id (levels : Nat) (setting : Setting) (data : List UInt8) :
    decodeWithin (fun body => body) levels setting data =
      Decoder.decodeWithin levels setting data := by
  have wraps : Wraps (Invariant.causes setting data) (fun _ => False) fun body => body := wraps_id
  exact decodeWithin_eq wraps (by rintro _ _ _ ⟨⟩) ⟨rfl, Decoder.started_inside⟩ (Nat.le_refl _)
    (fun h => Nat.lt_irrefl _ h) fun _ _ h => h

end Watched

end ByteSchema
