import Mathlib.Data.Finset.Card
import ByteSchema.Proofs.Decode.Overflow
import ByteSchema.Proofs.Decode.Watched

/-!
# Decodes come to an end

Two things go round in a decode: loops, which stop when an item consumes nothing, and template
calls. Calls end because every one of them is a level deeper, which a limit on levels cuts off, or
because no template calls itself, and then every call uses up a name. So a decode never runs out of
the calls and rounds that it is given. What is left is a record, an error, or the overflow of an
alignment.
-/

namespace ByteSchema

/-- No template comes to a call of itself. -/
def Schema.Acyclic (schema : Schema) : Prop :=
  ∀ name template arguments, schema.template? name = .ok template →
    ¬ Occurs schema template.spec (.template name arguments)

/-- At least `k` levels are open, and no more than the limit. -/
def Invariant.within (setting : Setting) (k : Nat) : Invariant setting where
  before s := s.Inside ∧ k ≤ s.depth ∧
    (0 < setting.config.maxDepth → s.depth ≤ setting.config.maxDepth)
  halts halt _ := halt ≠ .exhausted
  inside h := h.1
  advanced h hst := by
    rw [hst.depth]
    exact ⟨hst.inside, h.2⟩
  opened h _ _ := h
  deeper := by
    rintro s ⟨inside, opened, -⟩ deep
    exact ⟨inside, Nat.le_succ_of_le opened,
      fun limit => Nat.le_of_not_lt fun exceeds => deep ⟨limit, exceeds⟩⟩
  halted _ _ caused := by cases caused <;> nofun
  tooDeep _ _ := nofun

namespace Block

variable {setting : Setting}

/-! ### Loops -/

/-- An item either moves the cursor ahead inside the input or is the last of the loop, and more than
`bound` rounds change nothing. -/
structure Ending {α : Type} (loop : Nat → Run Unit) (item : Run α) (bound : Nat) (s : State) :
    Prop where
  ahead : ∀ a t, item s = .ok a t →
    s.cursor.offset < t.cursor.offset ∧ t.cursor.offset ≤ s.cursor.length ∨
      ∀ fuel, ∃ u, loop (fuel + 1) s = .ok () u
  enough : ∀ fuel, bound < fuel → loop fuel s = loop (bound + 1) s

variable {i : Invariant setting} {s : State}

/-- An item that does not stand still moves ahead. -/
theorem ahead_of_moved {t : State} (h : Balanced s t)
    (moved : t.cursor.offset ≠ s.cursor.offset) :
    s.cursor.offset < t.cursor.offset ∧ t.cursor.offset ≤ s.cursor.length := by
  have length : t.cursor.length = s.cursor.length := congrArg List.length h.data
  exact ⟨Nat.lt_of_le_of_ne h.forward (Ne.symm moved), length ▸ h.inside⟩

theorem uncounted_ending {item : Run Bool} (hitem : Keeps i item) (toEnd : Bool)
    (h : i.before s) : Ending (uncounted toEnd item) item s.cursor.remaining s where
  ahead last t ht := by
    by_cases moved : t.cursor.offset = s.cursor.offset
    · refine .inr fun fuel => ?_
      have done : Ends (uncounted toEnd item (fuel + 1)) s (fun _ _ => True) fun _ _ => False := by
        simp only [uncounted, ends_bind, ends_atRegionEnd]
        split
        · trivial
        · simp only [ends_bind, Run.ends_offset, ends_iff_of_ok ht]
          split
          · trivial
          · rw [ends_bind, Run.ends_offset, if_pos moved]
            trivial
      obtain ⟨_, u, hu, -⟩ := done.exists_ok
      exact ⟨u, hu⟩
    · exact .inl (ahead_of_moved ((hitem s h).of_ok ht) moved)
  enough _ hfuel := (uncounted_agree hitem (fun _ _ => .refl) toEnd h (Nat.lt_succ_self _) hfuel).eq

theorem fill_ending {item : Run Unit} (hitem : Keeps i item) (stop : Nat) (h : i.before s) :
    Ending (fill stop item) item (stop - s.cursor.offset) s where
  ahead _ t ht := by
    by_cases moved : t.cursor.offset = s.cursor.offset
    · refine .inr fun fuel => ?_
      have done : Ends (fill stop item (fuel + 1)) s (fun _ _ => True) fun _ _ => False := by
        simp only [fill, ends_bind, Run.ends_offset]
        split
        · simp only [ends_bind, Run.ends_offset, ends_iff_of_ok ht, if_pos moved]
          trivial
        · trivial
      obtain ⟨_, u, hu, -⟩ := done.exists_ok
      exact ⟨u, hu⟩
    · exact .inl (ahead_of_moved ((hitem s h).of_ok ht) moved)
  enough _ hfuel := (fill_agree hitem (fun _ _ => .refl) stop h (Nat.lt_succ_self _) hfuel).eq

/-! ### Calls under a limit -/

/-- With as many calls as levels are left below the limit, none of them is missing. -/
theorem callWithin_within (limit : 0 < setting.config.maxDepth) {levels k : Nat}
    (enough : setting.config.maxDepth < levels + k) (template : Template) :
    Keeps (Invariant.within setting k) (callWithin setting levels template) := by
  induction levels generalizing k template with
  | zero =>
    rintro s ⟨-, opened, shallow⟩
    have := shallow limit
    omega
  | succ levels ih =>
    have deeper (s : State) (h : (Invariant.within setting k).before s)
        (deep : ¬ TooDeep setting s) :
        (Invariant.within setting (k + 1)).before { s with depth := s.depth + 1 } :=
      ⟨h.1, Nat.succ_le_succ h.2.1, ((Invariant.within setting k).deeper h deep).2.2⟩
    refine nested_keeps_of deeper (fun _ _ h => h) (runAll_keeps fun _ _ template _ _ => ?_)
    exact ih (by omega) template

/-! ### Calls without cycles -/

open Classical in
/-- The names of the templates that `nodes` can come to calls of. -/
noncomputable def reached (schema : Schema) (nodes : List Node) : Finset String :=
  (schema.templates.map fun t => t.1).toFinset.filter fun name =>
    ∃ arguments, Occurs schema nodes (.template name arguments)

theorem reached_card_le (schema : Schema) (nodes : List Node) :
    (reached schema nodes).card ≤ schema.templates.length := by
  classical
  refine (Finset.card_filter_le _ _).trans ((List.toFinset_card_le _).trans_eq ?_)
  exact List.length_map _

theorem mem_reached {schema : Schema} {nodes : List Node} {name : String} {arguments : Arguments}
    {template : Template} (hname : Occurs schema nodes (.template name arguments))
    (htemplate : schema.template? name = .ok template) : name ∈ reached schema nodes := by
  simp only [reached, Finset.mem_filter, List.mem_toFinset]
  exact ⟨List.mem_map_of_mem (Schema.mem_templates_of_template? htemplate), arguments, hname⟩

/-- The body of a template that does not call itself reaches fewer names than its caller. -/
theorem reached_card_lt {schema : Schema} (acyclic : schema.Acyclic) {nodes : List Node}
    {name : String} {arguments : Arguments} {template : Template}
    (hname : Occurs schema nodes (.template name arguments))
    (htemplate : schema.template? name = .ok template) :
    (reached schema template.spec).card < (reached schema nodes).card := by
  refine Finset.card_lt_card ⟨fun other hother => ?_, fun hsub => ?_⟩
  · simp only [reached, Finset.mem_filter] at hother ⊢
    obtain ⟨hmem, arguments', hoccurs⟩ := hother
    exact ⟨hmem, arguments', hoccurs.trans fun _ hnode => .called hname htemplate hnode⟩
  · have self := hsub (mem_reached hname htemplate)
    simp only [reached, Finset.mem_filter] at self
    obtain ⟨-, arguments', hself⟩ := self
    exact acyclic name template arguments' htemplate hself

theorem callsKeep_of_acyclic {i : Invariant setting} (acyclic : setting.schema.Acyclic)
    {levels : Nat} {nodes : List Node} (enough : (reached setting.schema nodes).card ≤ levels) :
    CallsKeep i (callWithin setting levels) nodes := by
  induction levels generalizing nodes with
  | zero =>
    intro name arguments template hname htemplate
    have := reached_card_lt acyclic hname htemplate
    omega
  | succ levels ih =>
    intro name arguments template hname htemplate
    have := reached_card_lt acyclic hname htemplate
    exact run_keeps (ih (by omega))

end Block

namespace Decoder

variable {setting : Setting}

/-- A decode has the calls that it needs. -/
theorem not_exhausted (h : 0 < setting.config.maxDepth ∨ setting.schema.Acyclic)
    (data : List UInt8) :
    (decode setting data).result ≠ .error .exhausted := by
  have hstart : (Invariant.within setting 0).before (started setting data) :=
    ⟨started_inside, Nat.zero_le _, fun _ => Nat.zero_le _⟩
  have hrun : Keeps (Invariant.within setting 0) (Block.run setting
      (Block.callWithin setting (levels setting)) setting.schema.spec) := by
    by_cases limit : 0 < setting.config.maxDepth
    · have enough : setting.config.maxDepth < setting.config.maxDepth + 1 + 0 := by omega
      rw [levels, if_pos limit]
      exact Block.callWithin_within limit enough ⟨[], setting.schema.spec⟩
    · obtain acyclic := h.resolve_left limit
      rw [levels, if_neg limit]
      refine Block.run_keeps (Block.callsKeep_of_acyclic acyclic ?_)
      exact (Block.reached_card_le _ _).trans (Nat.le_add_left _ _)
  intro hexhausted
  obtain ⟨t, ht⟩ := halts_of_decode hstart hrun hexhausted
  exact ht rfl

/-- More calls than it needs change nothing for a decode. -/
theorem decodeWithin_more {data : List UInt8} {levels more : Nat} (hmore : levels ≤ more)
    (h : (decodeWithin levels setting data).result ≠ .error .exhausted) :
    decodeWithin more setting data = decodeWithin levels setting data := by
  have wraps : Watched.Wraps (Invariant.causes setting data) (· = .exhausted) fun body => body :=
    Watched.wraps_id
  rw [← Watched.decodeWithin_id more]
  refine Watched.decodeWithin_eq wraps (by rintro _ _ _ ⟨⟩) ⟨rfl, started_inside⟩ hmore
    (fun _ => rfl) ?_
  rintro halt hhalt rfl
  exact h hhalt

end Decoder

/-- With a limit on levels, or without cycles, a decode ends with a record or an error, or it breaks
off at an alignment that does not stay in words, and more calls would not change it. Its two loops
end in any case, whatever blocks and calls their items are made of. -/
theorem decode_terminates (setting : Setting) (data : List UInt8)
    (h : 0 < setting.config.maxDepth ∨ setting.schema.Acyclic) :
    ((∃ record, (decode setting data).result = .ok record) ∨
      (∃ e, (decode setting data).result = .error (.failed e)) ∨
      (decode setting data).result = .error .overflow ∧ (2 ^ 63 ≤ data.length ∨
        ∃ multiple basis, Occurs setting.schema setting.schema.spec
            (.action (.align multiple basis)) ∧
          (Action.align multiple basis).staysInWords = false)) ∧
    (∀ more, Decoder.levels setting ≤ more →
      Decoder.decodeWithin more setting data = decode setting data) ∧
    ∀ levels nodes s, s.cursor.offset ≤ s.cursor.length →
      let body := Block.run setting (Block.callWithin setting levels) nodes
      (∀ toEnd id stopWhen emitWhen,
        let item := Block.listItem setting id stopWhen emitWhen body
        Block.Ending (Block.uncounted toEnd item) item s.cursor.remaining s) ∧
      ∀ stop id, Block.Ending (Block.fill stop (Block.regionItem id body)) (Block.regionItem id body)
        (stop - s.cursor.offset) s := by
  have ended := Decoder.not_exhausted h data
  refine ⟨?_, fun more hmore => Decoder.decodeWithin_more hmore ended, fun levels nodes s hs => ?_⟩
  · cases hresult : (decode setting data).result with
    | ok record => exact .inl ⟨record, rfl⟩
    | error halt =>
      cases halt with
      | failed e => exact .inr (.inl ⟨e, rfl⟩)
      | overflow => exact .inr (.inr ⟨rfl, Decoder.overflow_cause hresult⟩)
      | exhausted => exact absurd hresult ended
  · have hbody := Block.run_callWithin_keeps (i := Invariant.causes setting s.cursor.data)
      (by rintro _ _ _ ⟨⟩) levels nodes
    exact ⟨fun toEnd id stopWhen emitWhen => Block.uncounted_ending
        (Block.listItem_keeps hbody id stopWhen emitWhen) toEnd ⟨rfl, hs⟩,
      fun stop id => Block.fill_ending (Block.regionItem_keeps hbody id) stop ⟨rfl, hs⟩⟩

namespace DecodeSample

theorem setting_acyclic : setting.schema.Acyclic := by
  intro name template arguments htemplate hself
  have found : template = ⟨["n"], [.bounded "items" (.ref "n") [.action (.uint "x" (.uint 2))]]⟩ := by
    simp only [Schema.template?, setting, List.lookup_cons, List.lookup_nil] at htemplate
    split at htemplate
    · next h =>
      split at h
      · cases h
        cases htemplate
        rfl
      · cases h
    · cases htemplate
  -- The body is a region with an action in it, and neither calls anything.
  have callless {node : Node} (h : Occurs setting.schema template.spec node) :
      node = .bounded "items" (.ref "n") [.action (.uint "x" (.uint 2))] ∨
        node = .action (.uint "x" (.uint 2)) := by
    induction h with
    | here hmem =>
      rw [found] at hmem
      exact .inl (List.mem_singleton.mp hmem)
    | inside _ hchild ih =>
      obtain rfl | rfl := ih
      · exact .inr (List.mem_singleton.mp hchild)
      · cases hchild
    | called _ _ _ ih => rcases ih with h | h <;> cases h
  rcases callless hself with h | h <;> cases h

/-- The template `again` calls itself, down to a limit of three levels. -/
def again : Setting where
  schema := {
    byteOrder := .big
    templates := [("again", ⟨[], [.template "again" (.named [])]⟩)]
    spec := [.template "again" (.named [])] }
  config := { Config.default with maxDepth := 3 }
  functions := []

theorem aligned_acyclic (multiple : UInt64) : (aligned multiple).schema.Acyclic := by
  intro name template arguments htemplate
  simp [Schema.template?, aligned] at htemplate

end DecodeSample

open DecodeSample in
/-- Without any template, the sum of `align` still takes the program down. -/
theorem decode_terminates_beyond :
    (aligned 18446744073709551615).schema.Acyclic ∧
    (∀ record, (decode (aligned 18446744073709551615) [0xaa, 0xbb, 0xcc]).result ≠ .ok record) ∧
    ∀ e, (decode (aligned 18446744073709551615) [0xaa, 0xbb, 0xcc]).result ≠
      .error (.failed e) := by
  have halted : (decode (aligned 18446744073709551615) [0xaa, 0xbb, 0xcc]).result =
    .error .overflow := rfl
  rw [halted]
  exact ⟨aligned_acyclic _, fun _ => nofun, fun _ => nofun⟩

open DecodeSample in
theorem decode_terminates_sample :
    (∀ more, 3 ≤ more →
      (Decoder.decodeWithin more again []).result = .error (.failed (.depthExceeded 3))) ∧
    (∀ more, UInt64.size + 1 ≤ more →
      Decoder.decodeWithin more setting [7] = decode setting [7]) ∧
    (∀ fuel, 3 < fuel →
      let item := Block.regionItem "items" (Block.run setting (Block.callWithin setting 1) overrun)
      Block.fill 4 item fuel inside = Block.fill 4 item 4 inside) ∧
    ∀ data : List UInt8, data.length < 2 ^ 63 →
      (∃ record, (decode (aligned 4) data).result = .ok record) ∨
        ∃ e, (decode (aligned 4) data).result = .error (.failed e) := by
  have cut : (decode again []).result = .error (.failed (.depthExceeded 3)) := rfl
  obtain ⟨-, more, -⟩ := decode_terminates again [] (.inl (by decide))
  obtain ⟨-, more', loops⟩ := decode_terminates setting [7] (.inr setting_acyclic)
  refine ⟨fun levels h => (congrArg Outcome.result (more levels h)).trans cut, more',
    ((loops 1 overrun inside (by decide)).2 4 "items").enough, fun data small => ?_⟩
  obtain ⟨ended, -⟩ := decode_terminates (aligned 4) data (.inr (aligned_acyclic 4))
  refine ended.imp_right fun ended => ended.resolve_right ?_
  rintro ⟨-, large | ⟨multiple, basis, occurs, far⟩⟩
  · exact absurd small (Nat.not_lt_of_le large)
  · have nodes : (aligned 4).schema.nodes = [.action (.skip (.uint 2)),
        .action (.align (.uint 4) (.term (.uint 1))), .action (.bytesLenient "rest" (.uint 1))] :=
      rfl
    have member := occurs.mem_nodes
    simp only [nodes, List.mem_cons, Node.action.injEq, Action.align.injEq, reduceCtorEq,
      List.not_mem_nil, false_or, or_false] at member
    obtain ⟨rfl, rfl⟩ := member
    cases far

end ByteSchema
