import ByteSchema.Proofs.Decode.Frame
import ByteSchema.Proofs.Decode.Outcomes

/-!
# Decodes of the first nodes

A decode goes through the top-level nodes in order, so that what it does at the first of them does
not depend on the others. The others can then fail, but they cannot take back a report, and no field
of the root either.
-/

namespace ByteSchema

/-- The setting with no more than the first `k` top-level nodes. -/
def Setting.first (k : Nat) (setting : Setting) : Setting :=
  { setting with schema := { setting.schema with spec := setting.schema.spec.take k } }

/-! ### The names in the root -/

namespace Scopes

variable {s : Scopes}

theorem keys_mapTarget {f : Record → Record} (hf : ∀ r : Record, r.keys <+: (f r).keys) :
    s.root.keys <+: (s.mapTarget f).root.keys := by
  obtain ⟨root, inner, frames⟩ := s
  cases inner with
  | nil => exact hf root
  | cons => exact List.prefix_rfl

theorem keys_write (id : String) (value : Value) :
    s.root.keys <+: (s.write id value).root.keys :=
  keys_mapTarget fun r => r.keys_insert id value

theorem keys_assign (id : String) (value : Value) :
    s.root.keys <+: (s.assign id value).root.keys := by
  unfold assign
  split
  · exact List.prefix_rfl
  · split
    · exact s.root.keys_insert id value
    · exact keys_write id value

theorem root_of_pop {t : Scopes} {r : Record} (h : s.pop? = some (r, t)) : t.root = s.root := by
  obtain ⟨root, inner, frames⟩ := s
  cases inner with
  | nil => cases h
  | cons =>
    cases h
    rfl

theorem root_of_popFrame {t : Scopes} (h : s.popFrame? = some t) : t.root = s.root := by
  obtain ⟨root, inner, frames⟩ := s
  cases frames with
  | nil => cases h
  | cons =>
    cases h
    rfl

end Scopes

/-- The root gets new names behind those that it has, whatever is set. -/
def Frame.rootKeys : Frame where
  allowed _ := True
  rel s t := s.root.keys <+: t.root.keys
  refl _ := List.prefix_rfl
  trans := List.IsPrefix.trans
  write _ := Scopes.keys_write
  merge _ fields := Scopes.keys_mapTarget fun r => r.keys_merge fields
  pushItem _ id item := Scopes.keys_mapTarget fun r => r.keys_pushItem id item
  assign _ id value _ := Scopes.keys_assign id value
  popScope hst hpop := by
    rw [Scopes.root_of_pop hpop]
    exact hst
  popFrame hst hpop hframe := by
    rw [Scopes.root_of_popFrame hframe, Scopes.root_of_pop hpop]
    exact hst

/-! ### The first nodes of a block -/

namespace Block

variable {setting : Setting} {call : Call}

theorem runAll_append (nodes more : List Node) : runAll setting call (nodes ++ more) = (do
    runAll setting call nodes
    runAll setting call more) := by
  induction nodes with
  | nil => rfl
  | cons node rest ih => simp [runAll, ih]

def begin (setting : Setting) (call : Call) (nodes : List Node) : Run Unit := do
  enter setting
  runAll setting call nodes

def finish (setting : Setting) (call : Call) (nodes : List Node) : Run Unit := do
  runAll setting call nodes
  leave

theorem run_append (nodes more : List Node) : run setting call (nodes ++ more) = (do
    begin setting call nodes
    finish setting call more) := by
  simp [run, nested, begin, finish, runAll_append]

theorem begin_follows {A B : Setting} {p : Pairing A B} (htail : p.tail = []) (levels : Nat)
    (nodes : List Node) : Follows p.pace (begin A (callWithin A levels) nodes)
      (begin B (callWithin B levels) nodes) :=
  p.enter.bind fun _ => runAll_follows (callWithin_inStep levels (.inl htail))

theorem finish_grows (levels : Nat) (nodes : List Node) :
    Grows State.diagnostics (finish setting (callWithin setting levels) nodes) :=
  (runAll_follows (p := .same setting) (callWithin_inStep levels (.inl rfl))).grows.bind
    fun _ => .still fun _ => rfl

theorem finish_frames (levels : Nat) (nodes : List Node) :
    Frames .rootKeys (finish setting (callWithin setting levels) nodes) :=
  (runAll_callWithin_frames levels fun _ _ _ => trivial).bind
    fun _ => .still fun _ => rfl

end Block

theorem Setting.first_similar (setting : Setting) (k j : Nat) :
    (setting.first k).Similar (setting.first j) :=
  ⟨rfl, rfl, rfl⟩

def Pairing.first (setting : Setting) (data : List UInt8) (k j : Nat) :
    Pairing (setting.first k) (setting.first j) :=
  .equal data (setting.first_similar k j) rfl

namespace Decoder

variable {setting : Setting} {data : List UInt8}

section

variable {levels : Nat} {nodes more : List Node} {t : State}

theorem block_eq (hspec : setting.schema.spec = nodes ++ more) : block levels setting data = (do
    Block.begin setting (Block.callWithin setting levels) nodes
    Block.finish setting (Block.callWithin setting levels) more) (started setting data) := by
  rw [block, hspec, Block.run_append]

theorem decodeWithin_of_begin_error {halt : Halt} (hspec : setting.schema.spec = nodes ++ more)
    (h : Block.begin setting (Block.callWithin setting levels) nodes (started setting data) =
      .error halt t) :
    (decodeWithin levels setting data).result = .error halt ∧
      (decodeWithin levels setting data).diagnostics = t.diagnostics :=
  decodeWithin_of_error (by rw [block_eq hspec, run_bind, h])

/-- What comes after the first nodes leaves their reports and their fields in place. -/
theorem decodeWithin_of_begin_ok (hspec : setting.schema.spec = nodes ++ more)
    (h : Block.begin setting (Block.callWithin setting levels) nodes (started setting data) =
      .ok () t) :
    t.diagnostics <+: (decodeWithin levels setting data).diagnostics ∧
      ∀ record, (decodeWithin levels setting data).result = .ok record →
        t.scopes.root.keys <+: record.keys := by
  have rest : block levels setting data =
      Block.finish setting (Block.callWithin setting levels) more t := by
    rw [block_eq hspec, run_bind, h]
  cases hrest : Block.finish setting (Block.callWithin setting levels) more t with
  | error halt u =>
    obtain ⟨result, reports⟩ := decodeWithin_of_error (rest.trans hrest)
    refine ⟨reports ▸ (Block.finish_grows levels more t).of_error hrest, fun record hrecord => ?_⟩
    rw [result] at hrecord
    cases hrecord
  | ok _ u =>
    obtain ⟨result, reports⟩ := decodeWithin_of_ok (rest.trans hrest)
    refine ⟨reports ▸ (Block.finish_grows levels more t).of_ok hrest, fun record hrecord => ?_⟩
    obtain rfl := Except.ok.inj (result.symm.trans hrecord)
    exact (Block.finish_frames levels more t).of_ok hrest

end

/-- A decode of more nodes ends where the decode of the first ones fails, or goes on from where it
ends. -/
theorem first_outcomes (setting : Setting) (data : List UInt8) {k j : Nat} (h : k ≤ j) :
    (∃ halt, (decode (setting.first k) data).result = .error halt ∧
      (decode (setting.first j) data).result = .error halt ∧
      (decode (setting.first j) data).diagnostics = (decode (setting.first k) data).diagnostics) ∨
    ∃ record, (decode (setting.first k) data).result = .ok record ∧
      (decode (setting.first k) data).diagnostics <+: (decode (setting.first j) data).diagnostics ∧
      ∀ record', (decode (setting.first j) data).result = .ok record' →
        record.keys <+: record'.keys := by
  have first : (setting.first k).schema.spec = setting.schema.spec.take k ++ [] :=
    (List.append_nil _).symm
  have more : (setting.first j).schema.spec =
      setting.schema.spec.take k ++ (setting.schema.spec.take j).drop k := by
    rw [← Nat.min_eq_left h, ← List.take_take, Nat.min_eq_left h]
    exact (List.take_append_drop k _).symm
  -- The states in which the first nodes start differ only in the number of nodes in the log.
  have start : (Pairing.first setting data k j).Alike (started (setting.first k) data)
      (started (setting.first j) data) :=
    started_alike (List.append_nil data) rfl rfl rfl
  have pairs := (Block.begin_follows rfl (levels setting) (setting.schema.spec.take k)).pairs
    _ _ start
  generalize hk : Block.begin (setting.first k) _ _ _ = r at pairs
  generalize hj : Block.begin (setting.first j) _ _ _ = r' at pairs
  cases pairs with
  | error hs =>
    obtain ⟨result, reports⟩ := decodeWithin_of_begin_error first hk
    obtain ⟨result', reports'⟩ := decodeWithin_of_begin_error more hj
    exact .inl ⟨_, result, result', reports'.trans (hs.reported.trans reports.symm)⟩
  | @ok _ t t' hs =>
    have ended : block (levels setting) (setting.first k) data =
        .ok () { t with depth := t.depth - 1 } := by
      rw [block_eq first, run_bind, hk]
      rfl
    obtain ⟨result, reports⟩ := decodeWithin_of_ok ended
    obtain ⟨reports', keys⟩ := decodeWithin_of_begin_ok more hj
    have same : t'.scopes = t.scopes := hs.scopes.symm
    have reported : t'.diagnostics = t.diagnostics := hs.reported
    rw [reported] at reports'
    rw [same] at keys
    exact .inr ⟨_, result, reports ▸ reports', keys⟩
  | partedOk never | partedError never => exact False.elim never

end Decoder

/-- Where the decode of the first nodes fails, a decode of more nodes fails with it. Where a decode
of more nodes succeeds, the one of the first nodes does, and its reports and the names of its fields
are the first ones there. -/
theorem decode_prefixes (setting : Setting) (data : List UInt8) {k j : Nat} (h : k ≤ j) :
    (∀ halt, (decode (setting.first k) data).result = .error halt →
      (decode (setting.first j) data).result = .error halt ∧
        (decode (setting.first j) data).diagnostics =
          (decode (setting.first k) data).diagnostics) ∧
    ∀ record', (decode (setting.first j) data).result = .ok record' →
      ∃ record, (decode (setting.first k) data).result = .ok record ∧
        (decode (setting.first k) data).diagnostics <+:
          (decode (setting.first j) data).diagnostics ∧
        record.keys <+: record'.keys := by
  obtain ⟨halt, result, result', reports⟩ | ⟨record, result, reports, keys⟩ :=
    Decoder.first_outcomes setting data h
  · refine ⟨fun halt' halted => ?_, fun record' ended => ?_⟩
    · obtain rfl := Except.error.inj (result.symm.trans halted)
      exact ⟨result', reports⟩
    · cases result'.symm.trans ended
  · refine ⟨fun halt' halted => ?_, fun record' ended => ?_⟩
    · cases result.symm.trans halted
    · exact ⟨record, result, reports, keys record' ended⟩

namespace DecodeSample

/-- Its template writes to the root by `set` and by what it merges; its last node fails. -/
def grown : Setting where
  schema := {
    byteOrder := .big
    templates := [("more", ⟨[], [
      .action (.bytesLenient "c" (.uint 3)),
      .action (.set "a" (.uint 7))]⟩)]
    spec := [
      .action (.uint "a" (.uint 1)),
      .action (.bytesLenient "b" (.uint 2)),
      .template "more" (.named []),
      .action (.assert (.bool false) "end")] }
  config := .default
  functions := []

end DecodeSample

open DecodeSample in
theorem decode_prefixes_grown :
    (∃ halt, ∀ j, 4 ≤ j → (decode (grown.first j) [1, 2]).result = .error halt) ∧
    ∃ record, (decode (grown.first 2) [1, 2]).result = .ok record ∧
      (decode (grown.first 2) [1, 2]).diagnostics <+:
        [.truncated "bytes_lenient" 2 1 1, .truncated "bytes_lenient" 3 0 2] ∧
      record.keys <+: ["a", "b", "c"] := by
  have failed : (decode (grown.first 4) [1, 2]).keys? = none := by decide +kernel
  have ended : (decode (grown.first 3) [1, 2]).keys? = some ["a", "b", "c"] := by decide +kernel
  have reported : (decode (grown.first 3) [1, 2]).diagnostics =
    [.truncated "bytes_lenient" 2 1 1, .truncated "bytes_lenient" 3 0 2] := by decide +kernel
  obtain ⟨halt, halted⟩ := Outcome.result_of_keys?_none failed
  obtain ⟨record', result, keys⟩ := Outcome.result_of_keys? ended
  rw [← reported, ← keys]
  exact ⟨⟨halt, fun j h => ((decode_prefixes grown [1, 2] h).1 halt halted).1⟩,
    (decode_prefixes grown [1, 2] (Nat.le_succ 2)).2 record' result⟩

end ByteSchema
