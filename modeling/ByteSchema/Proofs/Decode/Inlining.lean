import ByteSchema.Proofs.Decode.Alongside
import ByteSchema.Proofs.Decode.Prefixes

/-!
# Templates in place of their calls

The body of a template writes to a scope of its own, which is merged into the target at the end. Put
in place of the call it writes to the target at once. At top level, and where fields are only
referred to by name, this comes to the same: `decode_inlined`.
-/

namespace ByteSchema

/-- The setting with other nodes at top level. -/
def Setting.withSpec (nodes : List Node) (setting : Setting) : Setting :=
  setting.withSchema { setting.schema with spec := nodes }

/-- Runs of two decodes between top-level nodes. -/
structure State.AtTop (data : List UInt8) (s s' : State) : Prop where
  alike : (Sides.equal data).Alike s s'
  top : s.scopes = ⟨s.scopes.root, [], []⟩

theorem Balanced.top {s t : State} (h : Balanced s t) (top : s.scopes = ⟨s.scopes.root, [], []⟩) :
    t.scopes = ⟨t.scopes.root, [], []⟩ := by
  obtain ⟨_, ⟨root, inner, frames⟩, _, _, _⟩ := t
  have height : inner.length = s.scopes.inner.length := h.height
  have calls : frames = s.scopes.frames := h.frames
  rw [top] at height calls
  obtain rfl := List.eq_nil_of_length_eq_zero height
  rw [calls]

namespace Block

variable {setting : Setting} {nodes : List Node} {data : List UInt8}

theorem runAll_balanced {levels : Nat} {s t : State} (inside : s.Inside)
    (h : runAll setting (callWithin setting levels) nodes s = .ok () t) : Balanced s t := by
  have keeps : Keeps (Invariant.causes setting s.cursor.data)
      (runAll setting (callWithin setting levels) nodes) :=
    runAll_keeps fun _ _ template _ _ => callWithin_keeps causes_exhausted levels template
  exact (keeps s ⟨rfl, inside⟩).of_ok h

theorem runAll_atTop {A B : Setting} (similar : A.Similar B)
    (limit : B.config.maxDepth = A.config.maxDepth) (levels : Nat) (nodes : List Node) :
    Relates (State.AtTop data) (runAll A (callWithin A levels) nodes)
      (runAll B (callWithin B levels) nodes) (State.AtTop data) := by
  have calls : InStep (.equal data similar limit) (callWithin A levels) (callWithin B levels)
      nodes := callWithin_inStep levels (.inl rfl)
  intro s s' hs
  have pairs := (runAll_follows calls).pairs s s' hs.alike
  generalize hr : runAll A (callWithin A levels) nodes s = r at pairs
  generalize runAll B (callWithin B levels) nodes s' = r' at pairs
  cases pairs with
  | ok ht =>
    have balanced := runAll_balanced hs.alike.inside hr
    exact .ok ⟨ht, balanced.top hs.top⟩
  | error ht => exact .error ht.reported
  | partedOk never | partedError never => exact False.elim never

/-- What is left of a call after the nodes of its template. -/
def finishCall : Run Unit := do
  leave
  let fields ← Run.popScope
  Run.popFrame
  Run.mapScopes fun s => s.mapTarget fun r => r.merge fields

/-- The state in which the first node of a template starts, where the call has no arguments. -/
def entered (name : String) (s : State) : State :=
  { called .empty { s with log := .template name s.cursor.offset :: s.log } with
    depth := s.depth + 1 }

theorem runTemplate_apply {levels : Nat} {name : String} {arguments : Arguments}
    {template : Template} {s : State} (shallow : ¬ TooDeep setting s)
    (found : setting.schema.template? name = .ok template) (bare : arguments.terms = []) :
    runTemplate setting (callWithin setting (levels + 1)) name arguments s = (do
      runAll setting (callWithin setting levels) template.spec
      finishCall) (entered name s) := by
  have frame : bind setting name template.parameters arguments = pure .empty := by
    cases arguments with
    | positional terms =>
      obtain rfl : terms = [] := bare
      simp [bind, bindAll]
    | named terms =>
      obtain rfl : terms = [] := List.map_eq_nil_iff.mp bare
      rfl
  have deeper : ¬ TooDeep setting
      (called .empty { s with log := .template name s.cursor.offset :: s.log }) := shallow
  rw [runTemplate_eq, found]
  show invoke setting name template.parameters arguments _ s = _
  rw [invoke, frame]
  show (do
    nested setting (runAll setting (callWithin setting levels) template.spec)
    let fields ← Run.popScope
    Run.popFrame
    Run.mapScopes fun s => s.mapTarget fun r => r.merge fields)
      (called .empty { s with log := .template name s.cursor.offset :: s.log }) = _
  simp only [nested, bind_assoc]
  rw [run_bind, enter_of_not_tooDeep deeper]
  rfl

theorem finishCall_apply {s s' : State} (h : State.Alongside 0 [] s s') :
    finishCall s = .ok () { s with depth := s.depth - 1, scopes := s'.scopes } := by
  obtain ⟨fields, inner, frames, merged⟩ := h.scopes.closed
  obtain ⟨cursor, ⟨root, _, _⟩, regions, depth, log⟩ := s
  subst inner frames
  rw [merged]
  rfl

theorem entered_alongside {s s' : State} (hs : State.AtTop data s s') (name : String) :
    State.Alongside 0 [] (entered name s) s' := by
  have records : s.scopes = s'.scopes := hs.alike.scopes
  have quiet : (entered name s).diagnostics = s.diagnostics := by
    rw [State.diagnostics, entered, called, Log.diagnostics_cons]
    exact List.append_nil _
  refine ⟨hs.alike.cursor.trans Cursor.extend_nil, hs.alike.regions, ?_, ?_⟩
  · rw [quiet]
    exact hs.alike.reported
  · show Scopes.Merged 0 [] (s.scopes.pushFrame .empty).push s'.scopes
    rw [← records, hs.top]
    exact .opened s.scopes.root

theorem call_atTop {setting : Setting} {levels : Nat} {name : String} {arguments : Arguments}
    {template : Template} (unlimited : setting.config.maxDepth = 0)
    (found : setting.schema.template? name = .ok template) (bare : arguments.terms = [])
    (plain : ∀ node ∈ template.spec.flatMap Node.nested, node.isPlain = true) :
    Relates (State.AtTop data)
      (runNode setting (callWithin setting (levels + 1)) (.template name arguments))
      (runAll setting (callWithin setting levels) template.spec) (State.AtTop data) := by
  intro s s' hs
  have alike := hs.alike
  have body : Inlines 0 [] (runAll setting (callWithin setting levels) template.spec) :=
    runAll_inlines unlimited plain 0 []
  have ends := body _ _ (entered_alongside hs name)
  have run : runNode setting (callWithin setting (levels + 1)) (.template name arguments) s = (do
      runAll setting (callWithin setting levels) template.spec
      finishCall) (entered name s) := runTemplate_apply (not_tooDeep unlimited s) found bare
  generalize hr : runAll setting _ template.spec (entered name s) = r at ends
  generalize hr' : runAll setting _ template.spec s' = r' at ends
  rw [run_bind, hr] at run
  cases ends with
  | error same =>
    rw [run]
    exact .error same
  | @ok _ t t' ht =>
    replace run := run.trans (finishCall_apply ht)
    -- Neither the data nor the depth is in `Alongside`, but both runs are balanced.
    have called : Balanced s _ := runAll_balanced alike.inside (by rw [runAll_singleton]; exact run)
    have inlined : Balanced s' t' := by
      have cursor : s'.cursor = s.cursor := alike.cursor.trans Cursor.extend_nil
      refine runAll_balanced ?_ hr'
      rw [State.Inside, cursor]
      exact alike.inside
    obtain ⟨fields, -, -, merged⟩ := ht.scopes.closed
    rw [run]
    refine .ok ⟨⟨called.data.trans alike.data, called.inside, ?_, rfl, ht.regions, ?_, ?_⟩, ?_⟩
    · exact ht.cursor.trans Cursor.extend_nil.symm
    · exact inlined.depth.trans (alike.depth.trans called.depth.symm)
    · exact ht.diagnostics
    · simp only [merged]

theorem nested_atTop {A B : Setting} {m m' : Run Unit} (unlimited : A.config.maxDepth = 0)
    (limit : B.config.maxDepth = A.config.maxDepth)
    (h : Relates (State.AtTop data) m m' (State.AtTop data)) :
    Relates (State.AtTop data) (nested A m) (nested B m') (State.AtTop data) := by
  have entered : Relates (State.AtTop data) (enter A) (enter B) (State.AtTop data) := by
    intro s s' hs
    rw [enter_of_not_tooDeep (not_tooDeep unlimited s),
      enter_of_not_tooDeep (not_tooDeep (limit.trans unlimited) s')]
    exact .ok ⟨{ hs.alike with depth := congrArg (· + 1) hs.alike.depth }, hs.top⟩
  refine entered.bind fun _ => h.bind fun _ => fun s s' hs => ?_
  exact .ok ⟨{ hs.alike with depth := congrArg (· - 1) hs.alike.depth }, hs.top⟩

/-- The nodes of the template run the same in the schema that has them in place of the call. -/
theorem runAll_withSpec {levels : Nat} {nodes spec : List Node}
    (plain : ∀ node ∈ nodes.flatMap Node.nested, node.isPlain = true) :
    runAll (setting.withSpec spec) (callWithin (setting.withSpec spec) (levels + 1)) nodes =
      runAll setting (callWithin setting levels) nodes := by
  refine runAll_withSchema fun name arguments hcall => ?_
  have uncalled := plain _ hcall
  cases uncalled

theorem inlined_atTop {levels : Nat} {name : String} {arguments : Arguments} {template : Template}
    (unlimited : setting.config.maxDepth = 0)
    (found : setting.schema.template? name = .ok template) (bare : arguments.terms = [])
    (plain : ∀ node ∈ template.spec.flatMap Node.nested, node.isPlain = true)
    (before after : List Node) :
    Relates (State.AtTop data)
      (runAll setting (callWithin setting (levels + 1)) (before ++ .template name arguments :: after))
      (runAll (setting.withSpec (before ++ (template.spec ++ after)))
        (callWithin (setting.withSpec (before ++ (template.spec ++ after))) (levels + 1))
        (before ++ (template.spec ++ after)))
      (State.AtTop data) := by
  have similar : setting.Similar (setting.withSpec (before ++ (template.spec ++ after))) :=
    ⟨rfl, rfl, rfl⟩
  rw [runAll_append, runAll_append, runAll_append, runAll_withSpec plain, runAll]
  refine (runAll_atTop similar rfl _ before).bind fun _ => Relates.bind ?_ fun _ =>
    runAll_atTop similar rfl _ after
  exact call_atTop unlimited found bare plain

end Block

namespace Decoder

variable {A B : Setting} {data : List UInt8} {levels : Nat}

theorem decodeWithin_of_meets
    (h : Meets (State.AtTop data) (block levels A data) (block levels B data)) :
    (decodeWithin levels B data).result = (decodeWithin levels A data).result ∧
      (decodeWithin levels B data).diagnostics = (decodeWithin levels A data).diagnostics := by
  generalize hr : block levels A data = r at h
  generalize hr' : block levels B data = r' at h
  cases h with
  | ok hs =>
    obtain ⟨result, reports⟩ := decodeWithin_of_ok hr
    obtain ⟨result', reports'⟩ := decodeWithin_of_ok hr'
    have same : _ = _ := hs.alike.scopes
    rw [result, result', same]
    exact ⟨rfl, reports'.trans (hs.alike.reported.trans reports.symm)⟩
  | error same =>
    obtain ⟨result, reports⟩ := decodeWithin_of_error hr
    obtain ⟨result', reports'⟩ := decodeWithin_of_error hr'
    exact ⟨result'.trans result.symm, reports'.trans (same.trans reports.symm)⟩

end Decoder

/-- A call of a template at top level, without arguments, comes to the same as the nodes of the
template in its place. -/
theorem decode_inlined (setting : Setting) (before after : List Node) (name : String)
    (arguments : Arguments) (template : Template) (unlimited : setting.config.maxDepth = 0)
    (spec : setting.schema.spec = before ++ .template name arguments :: after)
    (found : setting.schema.template? name = .ok template) (bare : arguments.terms = [])
    (plain : ∀ node ∈ template.spec.flatMap Node.nested, node.isPlain = true)
    (data : List UInt8) :
    (decode (setting.withSpec (before ++ (template.spec ++ after))) data).result =
        (decode setting data).result ∧
      (decode (setting.withSpec (before ++ (template.spec ++ after))) data).diagnostics =
        (decode setting data).diagnostics := by
  obtain ⟨levels, hlevels⟩ : ∃ n, Decoder.levels setting = n + 1 := by
    refine Nat.exists_eq_succ_of_ne_zero ?_
    rw [Decoder.levels, unlimited]
    exact Nat.ne_of_gt (Nat.add_pos_left (by decide) _)
  have start : State.AtTop data (Decoder.started setting data)
      (Decoder.started (setting.withSpec (before ++ (template.spec ++ after))) data) :=
    ⟨⟨rfl, Decoder.started_inside, Cursor.extend_nil.symm, rfl, rfl, rfl, rfl⟩, rfl⟩
  have blocks : Meets (State.AtTop data) (Decoder.block (levels + 1) setting data)
      (Decoder.block (levels + 1) (setting.withSpec (before ++ (template.spec ++ after))) data) := by
    rw [Decoder.block, spec]
    exact Block.nested_atTop unlimited rfl
      (Block.inlined_atTop unlimited found bare plain before after) _ _ start
  have outcome := Decoder.decodeWithin_of_meets blocks
  rw [← hlevels] at outcome
  exact outcome

namespace DecodeSample

/-- Its list and its `set` meet fields that are in the root before. -/
def body : Template where
  parameters := []
  spec := [
    .action (.uint "a" (.uint 1)),
    .list "xs" [
      .action (.uint "x" (.ref "a")),
      .action (.set "n" (.ref "x"))] (some (.uint 2)) none none none,
    .action (.bytesLenient "rest" (.ref "n"))]

def boxed : Setting where
  schema := {
    byteOrder := .big
    templates := [("body", body)]
    spec := [
      .action (.uint "n" (.uint 1)),
      .action (.bind "xs" (.uint 3)),
      .template "body" (.named []),
      .action (.bind "b" (.ref "a"))] }
  config := .default
  functions := []

end DecodeSample

open DecodeSample in
theorem decode_inlined_boxed :
    (decode (boxed.withSpec
        (boxed.schema.spec.take 2 ++ (body.spec ++ boxed.schema.spec.drop 3))) [9, 1, 5, 7, 1]).keys? =
        some ["n", "xs", "a", "rest", "b"] ∧
      (decode (boxed.withSpec
        (boxed.schema.spec.take 2 ++ (body.spec ++ boxed.schema.spec.drop 3)))
          [9, 1, 5, 7, 1]).diagnostics =
        [.truncated "bytes_lenient" 7 1 4] := by
  have plain : ∀ node ∈ body.spec.flatMap Node.nested, node.isPlain = true := by decide +kernel
  obtain ⟨result, reports⟩ := decode_inlined boxed (boxed.schema.spec.take 2)
    (boxed.schema.spec.drop 3) "body" (.named []) body rfl rfl rfl rfl plain [9, 1, 5, 7, 1]
  rw [Outcome.keys?, result, reports]
  decide +kernel

end ByteSchema
