import ByteSchema.Proofs.Decode.Inlining
import ByteSchema.Proofs.Expr.Sums

/-!
# Blocks that start with their size

A list whose items start with their size, up to a size of zero, reads such blocks back as they were:
`sub_blocks_round_trip`. The list of the template is read by its own `data_length`, before the
fields are merged into the root.
-/

namespace ByteSchema

namespace SubBlocks

/-! ### The format -/

def encode (blocks : List (List UInt8)) : List UInt8 :=
  blocks.flatMap fun b => UInt8.ofNat b.length :: b

def stream (blocks : List (List UInt8)) (tail : List UInt8) : List UInt8 :=
  encode blocks ++ 0 :: tail

def sizeTest (op : Operator) : Term := .expr [.ref "$.size", .op op, .uint 0]

def item : List Node :=
  [.action (.uint "size" (.uint 1)), .action (.bytes "data" (.ref "size"))]

def chunkList : Node :=
  .list "chunks" item none (some (sizeTest .eq)) none (some (sizeTest .ne))

def body : List Node := [
  chunkList,
  .action (.bind "data_length" (.call [.ref "list::sum", .ref "chunks", .text "size"]))]

def fields (b : List UInt8) : Record :=
  [("size", .int (Int64.ofNat b.length)), ("data", .bytes b)]

/-- The records of the blocks. -/
def chunks (blocks : List (List UInt8)) : List Value := blocks.map fun b => .record (fields b)

/-! ### Runs that read all there is -/

/-- The run ends for lack of input. -/
def Starves {α : Type} (m : Run α) (s : State) : Prop :=
  ∃ offset requested available t,
    m s = .error (.failed (.unexpectedEof offset requested available)) t

section Starves

variable {α β : Type} {m : Run β} {f : β → Run α} {s t : State} {b : β}

theorem Starves.bind (h : Starves m s) : Starves (m >>= f) s := by
  obtain ⟨offset, requested, available, t, h⟩ := h
  exact ⟨offset, requested, available, t, bind_of_error h⟩

theorem Starves.after (h : m s = .ok b t) (starved : Starves (f b) t) : Starves (m >>= f) s := by
  rw [Starves, bind_of_ok h]
  exact starved

end Starves

/-! ### An item -/

/-- Another cursor and other open records. -/
def moved (s : State) (c : Cursor) (inner : List Record) : State :=
  { s with cursor := c, scopes := { s.scopes with inner := inner } }

/-- An item of which only the size is read. -/
def sized (b : List UInt8) : Record := [("size", .int (Int64.ofNat b.length))]

section Item

open Block Run

variable {setting : Setting} {call : Call} {s : State} {c : Cursor} {b after : List UInt8}
  {outer : List Record} {chunks : List Value}

/-- The value of a field of the innermost record. -/
theorem resolve_size {top : Record} {v : Value} (hsize : top.get? "size" = some v) :
    (moved s c (top :: outer)).scopes.resolve "size" = v ∧
      (moved s c (top :: outer)).scopes.resolve "$.size" = v := by
  have found : top.getPath "size" = some v := (Record.getPath_name (by decide) top).trans hsize
  constructor
  · rw [Scopes.resolve_name (by decide), Scopes.visible]
    show (List.findSome? (fun r => r.get? "size") (top :: (outer ++ _ ++ _))).getD _ = _
    rw [List.findSome?_cons, hsize]
    rfl
  · show (top.getPath "size").getD .undefined = v
    rw [found]
    rfl

theorem one_byte (s : State) : evalLength setting (.uint 1) s = .ok 1 s := by
  refine evalLength_of_ok (v := .ofNat 1) rfl ?_
  rw [Value.ofNat_of_lt (by decide), Value.toLength_ofNat (by decide)]

theorem size_read (hrest : c.rest = UInt8.ofNat b.length :: after) (small : b.length < 256) :
    (Action.uint "size" (.uint 1)).run setting (moved s c (.empty :: outer)) = .ok ()
      (moved s (c.advance 1) (sized b :: outer)) := by
  have taken : c.take 1 = .ok ([UInt8.ofNat b.length], c.advance 1) :=
    @Cursor.take_of_front c [UInt8.ofNat b.length] after hrest
  have value : Cursor.toNat c.order [UInt8.ofNat b.length] = b.length := by
    have byte : (UInt8.ofNat b.length).toNat = b.length := UInt8.toNat_ofNat_of_lt' small
    cases c.order <;> simp [Cursor.toNat, Cursor.bigEndian, byte]
  have read : Action.uintField 1 c = .ok (.int (Int64.ofNat b.length), c.advance 1) := by
    rw [Action.uintField, Cursor.readUInt, if_pos (by decide), taken]
    show Except.ok (Value.ofNat (Cursor.toNat c.order [UInt8.ofNat b.length]), _) = _
    rw [value, Value.ofNat_of_lt (by omega)]
  exact Action.readField_of_ok (one_byte _) read

theorem data_length (small : b.length < 256) :
    evalLength setting (.ref "size") (moved s c (sized b :: outer)) =
      .ok b.length (moved s c (sized b :: outer)) := by
  have size : (moved s c (sized b :: outer)).scopes.resolve "size" =
      .int (Int64.ofNat b.length) := (resolve_size rfl).1
  exact evalLength_of_ok (congrArg (EStateM.Result.ok · s.log) size)
    (Value.toLength_ofNat (by omega))

theorem item_read (hrest : c.rest = UInt8.ofNat b.length :: (b ++ after)) (small : b.length < 256) :
    runAll setting call item (moved s c (.empty :: outer)) =
      .ok () (moved s (c.advance (1 + b.length)) (fields b :: outer)) := by
  have left : (c.advance 1).rest = b ++ after := by
    rw [Cursor.rest_advance, hrest]
    rfl
  have data : Action.bytesField b.length (c.advance 1) =
      .ok (.bytes b, c.advance (1 + b.length)) := by
    rw [Action.bytesField, Cursor.take_of_front left, Cursor.advance, Cursor.advance, Nat.add_assoc]
    rfl
  have second : (Action.bytes "data" (.ref "size")).run setting
      (moved s (c.advance 1) (sized b :: outer)) =
      .ok () (moved s (c.advance (1 + b.length)) (fields b :: outer)) :=
    Action.readField_of_ok (data_length small) data
  rw [item, runAll, runNode, bind_of_ok (size_read hrest small), runAll, runNode,
    bind_of_ok second]
  rfl

/-- A block that is not there as a whole cannot be read. -/
theorem item_starved {m : Nat} (hrest : c.rest = (UInt8.ofNat b.length :: b).take m)
    (cut : m ≤ b.length) (small : b.length < 256) :
    Starves (runAll setting call item) (moved s c (.empty :: outer)) := by
  cases m with
  | zero =>
    have nothing : c.rest.length < 1 := by rw [hrest]; exact Nat.one_pos
    have missing : Action.uintField 1 c = .error (.unexpectedEof c.offset 1 c.remaining) := by
      rw [Action.uintField, Cursor.readUInt, if_pos (by decide), Cursor.take_of_short nothing]
      rfl
    exact Starves.bind ⟨_, _, _, _, Action.readField_of_error (one_byte _) missing⟩
  | succ m =>
    have left : (c.advance 1).rest = b.take m := by
      rw [Cursor.rest_advance, hrest]
      rfl
    have short : (c.advance 1).rest.length < b.length := by
      rw [left, List.length_take]
      omega
    have missing : Action.bytesField b.length (c.advance 1) =
        .error (.unexpectedEof (c.advance 1).offset b.length (c.advance 1).remaining) := by
      rw [Action.bytesField, Cursor.take_of_short short]
      rfl
    exact Starves.after (size_read hrest small)
      (Starves.bind ⟨_, _, _, _, Action.readField_of_error (data_length small) missing⟩)

/-! ### The list -/

/-- The state of the list: the chunks so far are in the scope of the template. -/
def collecting (s : State) (c : Cursor) (chunks : List Value) : State :=
  moved s c [[("chunks", .list chunks)]]

/-- The rule of an item: the list ends where the size is zero, and has the item where it is not. -/
def collect (chunks : List Value) (b : List UInt8) : List Value :=
  if b = [] then chunks else chunks ++ [.record (fields b)]

theorem evaluate_sizeTest {env : Env} {op : Operator} {n : Int64} {v : Value}
    (h : env.resolve "$.size" = .int n) (applied : op.apply (.int n) (.int 0) = .ok v) (log : Log) :
    evaluate env (sizeTest op) log = .ok v log := by
  show (do reduce env (env.resolve "$.size") [.op op, .uint 0] : Eval Value) log = _
  rw [h]
  show (Eval.ofExcept (op.apply (.int n) (.int 0)) >>= fun v => reduce env v [] : Eval Value) log = _
  rw [applied]
  rfl

theorem evalTruth_sizeTest {op : Operator} {truth : Bool}
    (applied : op.apply (.int (Int64.ofNat b.length)) (.int 0) = .ok (.bool truth)) :
    evalTruth setting (sizeTest op) (moved s c (fields b :: outer)) =
      .ok truth (moved s c (fields b :: outer)) := by
  have size : (moved s c (fields b :: outer)).scopes.resolve "$.size" =
      .int (Int64.ofNat b.length) := (resolve_size rfl).2
  have evaluated : evaluate (env setting (moved s c (fields b :: outer))) (sizeTest op) s.log =
      .ok (.bool truth) s.log := evaluate_sizeTest size applied s.log
  exact evalTruth_of_ok evaluated

theorem size_eq_zero (small : b.length < 256) : (Int64.ofNat b.length == 0) = b.isEmpty := by
  cases b with
  | nil => rfl
  | cons first rest =>
    refine beq_false_of_ne fun zero => ?_
    have value : (Int64.ofNat (first :: rest).length).toInt = (first :: rest).length :=
      Int64.toInt_ofNat_of_lt (by omega)
    rw [zero, Int64.toInt_zero, List.length_cons] at value
    omega

theorem nested_item (deep : ¬ TooDeep setting s)
    (hrest : c.rest = UInt8.ofNat b.length :: (b ++ after)) (small : b.length < 256) :
    nested setting (runAll setting call item) (moved s c (.empty :: outer)) =
      .ok () (moved s (c.advance (1 + b.length)) (fields b :: outer)) := by
  have entered : enter setting (moved s c (.empty :: outer)) =
      .ok () (moved { s with depth := s.depth + 1 } c (.empty :: outer)) :=
    enter_of_not_tooDeep deep
  rw [nested, bind_of_ok entered, bind_of_ok (item_read hrest small)]
  rfl

def round (setting : Setting) (call : Call) : Run Bool :=
  listItem setting "chunks" (some (sizeTest .eq)) (some (sizeTest .ne))
    (nested setting (runAll setting call item))

def rounds (setting : Setting) (call : Call) (fuel : Nat) : Run Unit :=
  uncounted false (round setting call) fuel

theorem round_read (deep : ¬ TooDeep setting s)
    (hrest : c.rest = UInt8.ofNat b.length :: (b ++ after)) (small : b.length < 256) :
    round setting call (collecting s c chunks) =
      .ok b.isEmpty (collecting s (c.advance (1 + b.length)) (collect chunks b)) := by
  have opened : mapScopes Scopes.push (collecting s c chunks) =
      .ok () (moved s c [.empty, [("chunks", .list chunks)]]) := rfl
  have stop : condition setting false (some (sizeTest .eq)) (moved s (c.advance (1 + b.length))
      [fields b, [("chunks", .list chunks)]]) = .ok b.isEmpty _ :=
    evalTruth_sizeTest (by rw [← size_eq_zero small]; rfl)
  have emit : condition setting true (some (sizeTest .ne)) (moved s (c.advance (1 + b.length))
      [fields b, [("chunks", .list chunks)]]) = .ok (!b.isEmpty) _ :=
    evalTruth_sizeTest (by rw [← size_eq_zero small]; rfl)
  have scope : inScope (nested setting (runAll setting call item)) (do
      let stop ← condition setting false (some (sizeTest .eq))
      let emit ← condition setting true (some (sizeTest .ne))
      return (stop, emit)) (collecting s c chunks) =
      .ok ((b.isEmpty, !b.isEmpty), fields b) (collecting s (c.advance (1 + b.length)) chunks) := by
    rw [inScope, bind_of_ok opened, bind_of_ok (nested_item deep hrest small), bind_assoc,
      bind_of_ok stop, bind_assoc, bind_of_ok emit]
    rfl
  rw [round, listItem, bind_of_ok scope]
  cases b <;> rfl

theorem round_starved {m : Nat} (deep : ¬ TooDeep setting s)
    (hrest : c.rest = (UInt8.ofNat b.length :: b).take m) (cut : m ≤ b.length)
    (small : b.length < 256) :
    Starves (round setting call) (collecting s c chunks) := by
  have opened : mapScopes Scopes.push (collecting s c chunks) =
      .ok () (moved s c [.empty, [("chunks", .list chunks)]]) := rfl
  have entered : enter setting (moved s c [.empty, [("chunks", .list chunks)]]) =
      .ok () (moved { s with depth := s.depth + 1 } c [.empty, [("chunks", .list chunks)]]) :=
    enter_of_not_tooDeep deep
  exact Starves.bind (Starves.after opened (Starves.bind (Starves.after entered
    (Starves.bind (item_starved hrest cut small)))))

theorem rounds_succ (fuel : Nat) (s : State) : rounds setting call (fuel + 1) s =
    (round setting call >>= fun stop =>
      if stop then pure () else do
        if (← Run.offset) = s.cursor.offset then Run.report (.stalled "list" s.cursor.offset)
        else rounds setting call fuel : Run Unit) s := by
  rw [rounds, uncounted, bind_of_ok (atRegionEnd_apply s)]
  rfl

/-- A block that is not empty is one more item, and the list goes on behind it. -/
theorem rounds_block {fuel : Nat} (deep : ¬ TooDeep setting s)
    (hrest : c.rest = UInt8.ofNat b.length :: (b ++ after)) (size : 1 ≤ b.length ∧ b.length ≤ 255) :
    rounds setting call (fuel + 1) (collecting s c chunks) = rounds setting call fuel
      (collecting s (c.advance (1 + b.length)) (chunks ++ [.record (fields b)])) := by
  have some : b ≠ [] := List.length_pos_iff.mp size.1
  have read : round setting call (collecting s c chunks) =
      .ok false (collecting s (c.advance (1 + b.length)) (chunks ++ [.record (fields b)])) := by
    rw [round_read deep hrest (by omega), collect, if_neg some, List.isEmpty_eq_false_iff.mpr some]
  have moves : (c.advance (1 + b.length)).offset ≠ c.offset := by
    show c.offset + (1 + b.length) ≠ c.offset
    omega
  rw [rounds_succ, bind_of_ok read]
  exact congrFun (if_neg moves) _

theorem rounds_read {blocks : List (List UInt8)} {tail : List UInt8} {fuel : Nat}
    (deep : ¬ TooDeep setting s) (sizes : ∀ b ∈ blocks, 1 ≤ b.length ∧ b.length ≤ 255)
    (hrest : c.rest = stream blocks tail) (enough : c.rest.length < fuel) :
    rounds setting call fuel (collecting s c chunks) =
      .ok () (collecting s (c.advance ((encode blocks).length + 1))
        (chunks ++ blocks.map fun b => .record (fields b))) := by
  obtain ⟨fuel, rfl⟩ := Nat.exists_eq_succ_of_ne_zero (Nat.ne_of_gt (Nat.zero_lt_of_lt enough))
  induction blocks generalizing c chunks fuel with
  | nil =>
    have last : round setting call (collecting s c chunks) =
        .ok true (collecting s (c.advance 1) chunks) := round_read (b := []) deep hrest (by decide)
    rw [rounds_succ, bind_of_ok last, List.map_nil, List.append_nil]
    rfl
  | cons b rest ih =>
    obtain ⟨size, sizes⟩ := List.forall_mem_cons.mp sizes
    have first : c.rest = UInt8.ofNat b.length :: (b ++ stream rest tail) := by
      rw [hrest]
      simp [stream, encode]
    have left : (c.advance (1 + b.length)).rest = stream rest tail := by
      rw [Cursor.rest_advance, first, Nat.add_comm, List.drop_succ_cons, List.drop_left]
    obtain ⟨fuel, rfl⟩ : ∃ n, fuel = n + 1 := by
      refine Nat.exists_eq_succ_of_ne_zero ?_
      rw [first, List.length_cons, List.length_append] at enough
      omega
    have fewer : (c.advance (1 + b.length)).rest.length < fuel + 1 := by
      rw [left]
      rw [first, List.length_cons, List.length_append] at enough
      omega
    rw [rounds_block deep first size, ih sizes left _ fewer, List.append_assoc]
    have position : (c.advance (1 + b.length)).advance ((encode rest).length + 1) =
        c.advance ((encode (b :: rest)).length + 1) := by
      simp only [Cursor.advance, encode, List.flatMap_cons, List.length_append, List.length_cons,
        Nat.add_assoc, Nat.add_comm, Nat.add_left_comm]
    rw [position]
    rfl

theorem rounds_starved {blocks : List (List UInt8)} {m fuel : Nat} (deep : ¬ TooDeep setting s)
    (sizes : ∀ b ∈ blocks, 1 ≤ b.length ∧ b.length ≤ 255)
    (cut : m ≤ (encode blocks).length) (hrest : c.rest = (encode blocks).take m)
    (enough : c.rest.length < fuel) :
    Starves (rounds setting call fuel) (collecting s c chunks) := by
  obtain ⟨fuel, rfl⟩ := Nat.exists_eq_succ_of_ne_zero (Nat.ne_of_gt (Nat.zero_lt_of_lt enough))
  induction blocks generalizing c chunks fuel m with
  | nil =>
    have none : c.rest = (UInt8.ofNat 0 :: []).take 0 := by
      rw [hrest]
      exact List.take_nil
    have starved : Starves (round setting call) (collecting s c chunks) :=
      round_starved (b := []) deep none (Nat.le_refl 0) (by decide)
    rw [Starves, rounds_succ]
    exact starved.bind
  | cons b rest ih =>
    obtain ⟨size, sizes⟩ := List.forall_mem_cons.mp sizes
    have whole : encode (b :: rest) = (UInt8.ofNat b.length :: b) ++ encode rest := rfl
    by_cases inside : m ≤ b.length
    · have first : c.rest = (UInt8.ofNat b.length :: b).take m := by
        rw [hrest, whole, List.take_append_of_le_length]
        rw [List.length_cons]
        omega
      have starved : Starves (round setting call) (collecting s c chunks) :=
        round_starved deep first inside (by omega)
      rw [Starves, rounds_succ]
      exact starved.bind
    · obtain ⟨k, rfl⟩ : ∃ k, m = (UInt8.ofNat b.length :: b).length + k := by
        refine ⟨m - (b.length + 1), ?_⟩
        rw [List.length_cons]
        omega
      have first : c.rest = UInt8.ofNat b.length :: (b ++ (encode rest).take k) := by
        rw [hrest, whole, List.take_length_add_append]
        rfl
      have left : (c.advance (1 + b.length)).rest = (encode rest).take k := by
        rw [Cursor.rest_advance, first, Nat.add_comm, List.drop_succ_cons, List.drop_left]
      rw [first, List.length_cons, List.length_append] at enough
      obtain ⟨fuel, rfl⟩ : ∃ n, fuel = n + 1 := Nat.exists_eq_succ_of_ne_zero (by omega)
      have fewer : (c.advance (1 + b.length)).rest.length < fuel + 1 := by
        rw [left]
        omega
      rw [whole, List.length_append] at cut
      rw [Starves, rounds_block deep first size]
      exact ih sizes (by omega) left _ fewer

end Item

/-! ### The sum -/

theorem listSum_chunks {blocks : List (List UInt8)}
    (h : blocks.flatten.length < 0x8000000000000000) :
    Function.listSum [.list (blocks.map fun b => .record (fields b)), .text "size"] =
      .ok (.int (Int64.ofNat blocks.flatten.length)) := by
  have sizes : (blocks.map fun b => Value.record (fields b)).map
      (Function.summand (Function.sumKey [.text "size"])) =
      (blocks.map List.length).map fun n => .int (Int64.ofNat n) := by
    rw [List.map_map, List.map_map]
    rfl
  rw [List.length_flatten] at h ⊢
  have sum := Function.sumTerms_ofNat (m := 0) (by rwa [Nat.zero_add])
  rw [Nat.zero_add] at sum
  rw [Function.listSum, sizes]
  exact sum

section Call

open Block Run

variable {setting : Setting} {call : Call} {s : State} {c : Cursor} {blocks : List (List UInt8)}
  {tail : List UInt8}

/-- The list with its start in the log. -/
def listing (s : State) (c : Cursor) : State :=
  { s with log := .list "chunks" c.offset none :: s.log }

theorem runNode_chunkList : runNode setting call chunkList (moved s c [.empty]) =
    rounds setting call (c.remaining + 1) (collecting (listing s c) c []) :=
  rfl

theorem chunkList_read (deep : ¬ TooDeep setting s)
    (sizes : ∀ b ∈ blocks, 1 ≤ b.length ∧ b.length ≤ 255) (hrest : c.rest = stream blocks tail) :
    runNode setting call chunkList (moved s c [.empty]) = .ok ()
      (collecting (listing s c) (c.advance ((encode blocks).length + 1)) (chunks blocks)) := by
  have enough : c.rest.length < c.remaining + 1 := Nat.lt_succ_of_le (Nat.le_of_eq c.length_rest)
  have deep' : ¬ TooDeep setting (listing s c) := deep
  rw [runNode_chunkList, rounds_read deep' sizes hrest enough, List.nil_append]
  rfl

theorem call_of_get? {env : Env} {name : String} {f : Function} {arguments : List Value}
    (h : env.functions.get? name = some f) :
    env.call name arguments = Eval.ofExcept (f arguments) := by
  unfold Env.call
  rw [h]

theorem evalSum (hsum : setting.functions.get? "list::sum" = some Function.listSum)
    (h : blocks.flatten.length < 0x8000000000000000) :
    eval setting (.call [.ref "list::sum", .ref "chunks", .text "size"])
      (collecting s c (chunks blocks)) =
      .ok (.int (Int64.ofNat blocks.flatten.length)) (collecting s c (chunks blocks)) := by
  have found : (collecting s c (chunks blocks)).scopes.resolve "chunks" = .list (chunks blocks) := by
    rw [Scopes.resolve_name (by decide)]
    rfl
  refine eval_of_ok ?_
  show (env setting (collecting s c (chunks blocks))).call "list::sum"
    [(collecting s c (chunks blocks)).scopes.resolve "chunks", .text "size"] s.log = _
  rw [found, call_of_get? hsum, chunks, listSum_chunks h]
  rfl

/-- The fields of the template. -/
def summed (blocks : List (List UInt8)) : Record :=
  [("chunks", .list (chunks blocks)), ("data_length", .int (Int64.ofNat blocks.flatten.length))]

theorem body_read (deep : ¬ TooDeep setting s)
    (hsum : setting.functions.get? "list::sum" = some Function.listSum)
    (sizes : ∀ b ∈ blocks, 1 ≤ b.length ∧ b.length ≤ 255)
    (h : blocks.flatten.length < 0x8000000000000000) (hrest : c.rest = stream blocks tail) :
    runAll setting call body (moved s c [.empty]) = .ok ()
      (moved (listing s c) (c.advance ((encode blocks).length + 1)) [summed blocks]) := by
  have nodes : runAll setting call body (moved s c [.empty]) = (do
      runNode setting call chunkList
      write "data_length" (← eval setting (.call [.ref "list::sum", .ref "chunks", .text "size"])))
      (moved s c [.empty]) := by
    rw [body, runAll, runAll_singleton]
    rfl
  rw [nodes, bind_of_ok (chunkList_read deep sizes hrest), bind_of_ok (evalSum hsum h)]
  rfl

theorem body_starved {m : Nat} (deep : ¬ TooDeep setting s)
    (sizes : ∀ b ∈ blocks, 1 ≤ b.length ∧ b.length ≤ 255) (cut : m ≤ (encode blocks).length)
    (hrest : c.rest = (encode blocks).take m) :
    Starves (runAll setting call body) (moved s c [.empty]) := by
  have enough : c.rest.length < c.remaining + 1 := Nat.lt_succ_of_le (Nat.le_of_eq c.length_rest)
  have deep' : ¬ TooDeep setting (listing s c) := deep
  have list : Starves (runNode setting call chunkList) (moved s c [.empty]) :=
    rounds_starved deep' sizes cut hrest enough
  exact list.bind

/-! ### The call -/

variable {levels : Nat} {name : String} {arguments : Arguments} {parameters : List String}

/-- The call of a template, the template and its items each take a level. -/
abbrev Roomy (setting : Setting) : Prop :=
  setting.config.maxDepth = 0 ∨ 3 ≤ setting.config.maxDepth

theorem not_tooDeep_of_roomy (roomy : Roomy setting) {s : State} (h : s.depth < 3) :
    ¬ TooDeep setting s := by
  unfold TooDeep
  omega

theorem call_read (roomy : Roomy setting) (top : s.scopes = .empty) (level : s.depth = 1)
    (found : setting.schema.template? name = .ok ⟨parameters, body⟩) (bare : arguments.terms = [])
    (hsum : setting.functions.get? "list::sum" = some Function.listSum)
    (sizes : ∀ b ∈ blocks, 1 ≤ b.length ∧ b.length ≤ 255)
    (h : blocks.flatten.length < 0x8000000000000000) (hrest : s.cursor.rest = stream blocks tail) :
    ∃ t, runTemplate setting (callWithin setting (levels + 1)) name arguments s = .ok () t ∧
      t.cursor = s.cursor.advance ((encode blocks).length + 1) ∧
      t.scopes = ⟨summed blocks, [], []⟩ ∧ t.diagnostics = s.diagnostics := by
  have shallow : ¬ TooDeep setting s := not_tooDeep_of_roomy roomy (by omega)
  have inside : ¬ TooDeep setting (entered name s) :=
    not_tooDeep_of_roomy roomy (show s.depth + 1 < 3 by omega)
  obtain ⟨cursor, scopes, regions, depth, log⟩ := s
  obtain rfl : scopes = .empty := top
  have nodes : runAll setting (callWithin setting levels) body (entered name _) = .ok () _ :=
    body_read inside hsum sizes h hrest
  have run := (runTemplate_apply shallow found bare).trans (bind_of_ok nodes)
  exact ⟨_, run, rfl, rfl, rfl⟩

theorem call_starved {m : Nat} (roomy : Roomy setting) (top : s.scopes = .empty)
    (level : s.depth = 1) (found : setting.schema.template? name = .ok ⟨parameters, body⟩)
    (bare : arguments.terms = []) (sizes : ∀ b ∈ blocks, 1 ≤ b.length ∧ b.length ≤ 255)
    (cut : m ≤ (encode blocks).length) (hrest : s.cursor.rest = (encode blocks).take m) :
    Starves (runTemplate setting (callWithin setting (levels + 1)) name arguments) s := by
  have shallow : ¬ TooDeep setting s := not_tooDeep_of_roomy roomy (by omega)
  have inside : ¬ TooDeep setting (entered name s) :=
    not_tooDeep_of_roomy roomy (show s.depth + 1 < 3 by omega)
  rw [Starves, runTemplate_apply shallow found bare]
  obtain ⟨cursor, scopes, regions, depth, log⟩ := s
  obtain rfl : scopes = .empty := top
  exact (body_starved inside sizes cut hrest).bind

end Call

/-! ### The decode -/

section Decode

open Block Run

variable {setting : Setting} {name : String} {arguments : Arguments} {parameters : List String}
  {blocks : List (List UInt8)} {tail : List UInt8}

/-- A call of the template, and the bytes after the terminator. -/
def spec (name : String) (arguments : Arguments) (n : Nat) : List Node :=
  [.template name arguments, .action (.bytes "rest" (.uint (UInt64.ofNat n)))]

theorem levels_pos (setting : Setting) : 0 < Decoder.levels setting := by
  unfold Decoder.levels
  split
  · next limited => exact limited
  · exact Nat.add_pos_left (by decide) _

theorem tail_read {s : State} (fits : tail.length < 0x8000000000000000)
    (hrest : s.cursor.rest = tail) :
    (Action.bytes "rest" (.uint (UInt64.ofNat tail.length))).run setting s = .ok ()
      { s with
        cursor := s.cursor.advance tail.length
        scopes := s.scopes.write "rest" (.bytes tail) } := by
  have value : (UInt64.ofNat tail.length).toNat = tail.length :=
    UInt64.toNat_ofNat_of_lt' (Nat.lt_trans fits (by decide))
  have length : evalLength setting (.uint (UInt64.ofNat tail.length)) s = .ok tail.length s := by
    refine evalLength_of_ok (v := .int (Int64.ofNat tail.length)) ?_ (Value.toLength_ofNat fits)
    show EStateM.Result.ok (Value.ofNat (UInt64.ofNat tail.length).toNat) s.log = _
    rw [value, Value.ofNat_of_lt fits]
  have whole : s.cursor.rest = tail ++ [] := by rw [hrest, List.append_nil]
  refine Action.readField_of_ok length ?_
  rw [Action.bytesField, Cursor.take_of_front whole]
  rfl

theorem block_read (roomy : Roomy setting) (levels : Nat)
    (hspec : setting.schema.spec = spec name arguments tail.length)
    (found : setting.schema.template? name = .ok ⟨parameters, body⟩) (bare : arguments.terms = [])
    (hsum : setting.functions.get? "list::sum" = some Function.listSum)
    (sizes : ∀ b ∈ blocks, 1 ≤ b.length ∧ b.length ≤ 255)
    (h : blocks.flatten.length < 0x8000000000000000) (fits : tail.length < 0x8000000000000000) :
    ∃ t, Decoder.block (levels + 1) setting (stream blocks tail) = .ok () t ∧
      t.scopes.root = summed blocks ++ [("rest", .bytes tail)] ∧ t.diagnostics = [] := by
  have entered : enter setting (Decoder.started setting (stream blocks tail)) =
      .ok () { Decoder.started setting (stream blocks tail) with depth := 1 } :=
    enter_of_not_tooDeep (not_tooDeep_of_roomy roomy (show 0 < 3 by decide))
  obtain ⟨t, called, cursor, scopes, quiet⟩ :
      ∃ t, runTemplate setting (callWithin setting (levels + 1)) name arguments
          { Decoder.started setting (stream blocks tail) with depth := 1 } = .ok () t ∧
        t.cursor = (Cursor.start _ _).advance ((encode blocks).length + 1) ∧
        t.scopes = ⟨summed blocks, [], []⟩ ∧ t.diagnostics = [] :=
    call_read roomy rfl rfl found bare hsum sizes h rfl
  have left : t.cursor.rest = tail := by
    rw [cursor, Cursor.rest_advance]
    show (encode blocks ++ 0 :: tail).drop ((encode blocks).length + 1) = tail
    rw [← List.drop_drop, List.drop_left]
    rfl
  have nodes : runAll setting (callWithin setting (levels + 1)) (spec name arguments tail.length)
      { Decoder.started setting (stream blocks tail) with depth := 1 } = .ok ()
        { t with
          cursor := t.cursor.advance tail.length
          scopes := t.scopes.write "rest" (.bytes tail) } := by
    rw [spec, runAll, runNode, bind_of_ok called, runAll, runNode, bind_of_ok (tail_read fits left)]
    rfl
  have root : (t.scopes.write "rest" (.bytes tail)).root =
      summed blocks ++ [("rest", .bytes tail)] := by
    rw [scopes]
    rfl
  have block : Decoder.block (levels + 1) setting (stream blocks tail) = .ok ()
      { t with
        cursor := t.cursor.advance tail.length
        scopes := t.scopes.write "rest" (.bytes tail)
        depth := t.depth - 1 } := by
    rw [Decoder.block, Block.run, nested, bind_of_ok entered, hspec, bind_of_ok nodes]
    rfl
  exact ⟨_, block, root, quiet⟩

theorem block_starved (roomy : Roomy setting) (levels n : Nat)
    (hspec : setting.schema.spec = spec name arguments tail.length)
    (found : setting.schema.template? name = .ok ⟨parameters, body⟩) (bare : arguments.terms = [])
    (sizes : ∀ b ∈ blocks, 1 ≤ b.length ∧ b.length ≤ 255) (cut : n ≤ (encode blocks).length) :
    Starves (Block.run setting (callWithin setting (levels + 1)) setting.schema.spec)
      (Decoder.started setting ((encode blocks).take n)) := by
  have entered : enter setting (Decoder.started setting ((encode blocks).take n)) =
      .ok () { Decoder.started setting ((encode blocks).take n) with depth := 1 } :=
    enter_of_not_tooDeep (not_tooDeep_of_roomy roomy (show 0 < 3 by decide))
  rw [Block.run, nested, hspec, spec]
  refine Starves.after entered (Starves.bind (Starves.bind ?_))
  exact call_starved roomy rfl rfl found bare sizes cut rfl

end Decode

end SubBlocks

open SubBlocks in
/-- Blocks that each start with their size, up to a size of zero, are read back as they are. Where
the input ends before the terminator there is no record. -/
theorem sub_blocks_round_trip (setting : Setting) (name : String) (arguments : Arguments)
    (parameters : List String) (blocks : List (List UInt8)) (tail : List UInt8)
    (roomy : setting.config.maxDepth = 0 ∨ 3 ≤ setting.config.maxDepth)
    (hspec : setting.schema.spec = spec name arguments tail.length)
    (found : setting.schema.template? name = .ok ⟨parameters, body⟩) (bare : arguments.terms = [])
    (hsum : setting.functions.get? "list::sum" = some Function.listSum)
    (sizes : ∀ b ∈ blocks, 1 ≤ b.length ∧ b.length ≤ 255)
    (total : blocks.flatten.length < 0x8000000000000000)
    (fits : tail.length < 0x8000000000000000) :
    (decode setting (stream blocks tail)).result =
        .ok [("chunks", .list (chunks blocks)),
          ("data_length", .int (Int64.ofNat blocks.flatten.length)), ("rest", .bytes tail)] ∧
      (decode setting (stream blocks tail)).diagnostics = [] ∧
      ∀ n ≤ (encode blocks).length, ∃ offset requested available,
        (decode setting ((stream blocks tail).take n)).result =
          .error (.failed (.unexpectedEof offset requested available)) := by
  obtain ⟨levels, hlevels⟩ := Nat.exists_eq_add_of_lt (levels_pos setting)
  obtain ⟨t, read, root, quiet⟩ := block_read roomy levels hspec found bare hsum sizes total fits
  obtain ⟨result, reports⟩ := Decoder.decodeWithin_of_ok read
  rw [Nat.zero_add] at hlevels
  rw [← hlevels] at result reports
  refine ⟨result.trans (congrArg _ root), reports.trans quiet, fun n cut => ?_⟩
  obtain ⟨offset, requested, available, t, starved⟩ :=
    block_starved roomy levels n hspec found bare sizes cut
  have front : (stream blocks tail).take n = (encode blocks).take n :=
    List.take_append_of_le_length cut
  have failed := (Decoder.decodeWithin_of_error starved).1
  rw [← hlevels, ← front] at failed
  exact ⟨offset, requested, available, failed⟩

namespace DecodeSample

/-- Its template takes a parameter that the call leaves out, and calls may nest no deeper. -/
def blocked : Setting where
  schema := {
    byteOrder := .little
    templates := [("blocks", ⟨["unused"], SubBlocks.body⟩)]
    spec := SubBlocks.spec "blocks" (.positional []) 2 }
  config := { Config.default with maxDepth := 3 }
  functions := Registry.builtins

end DecodeSample

open DecodeSample SubBlocks in
theorem sub_blocks_round_trip_blocked :
    (decode blocked [2, 7, 0, 1, 9, 0, 0, 5]).keys? = some ["chunks", "data_length", "rest"] ∧
      (decode blocked [2, 7, 0, 1, 9, 0, 0, 5]).diagnostics = [] ∧
      ∃ offset requested available, (decode blocked [2, 7, 0, 1]).result =
        .error (.failed (.unexpectedEof offset requested available)) := by
  have sizes : ∀ b ∈ ([[7, 0], [9]] : List (List UInt8)), 1 ≤ b.length ∧ b.length ≤ 255 := by decide
  have input : stream [[7, 0], [9]] [0, 5] = [2, 7, 0, 1, 9, 0, 0, 5] := by decide
  obtain ⟨result, reports, starved⟩ := sub_blocks_round_trip blocked "blocks" (.positional [])
    ["unused"] [[7, 0], [9]] [0, 5] (by decide) rfl rfl rfl rfl sizes (by decide) (by decide)
  have cut := starved 4 (by decide)
  rw [input] at result reports cut
  refine ⟨?_, reports, cut⟩
  rw [Outcome.keys?, result]
  rfl

end ByteSchema
