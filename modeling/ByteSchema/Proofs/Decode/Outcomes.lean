import ByteSchema.Proofs.Decode.Lockstep

/-!
# What decodes in step come to

Decodes that stay in step through their top-level blocks come to the same result and to reports
that compare, or they parted: `decodeWithin_follows`.
-/

namespace ByteSchema

variable {A B : Setting} {p : Pairing A B}

namespace Outcome

abbrev diagnostics (o : Outcome) : List Diagnostic := o.log.diagnostics

def keys? (o : Outcome) : Option (List String) := o.result.toOption.map Record.keys

theorem result_of_keys? {o : Outcome} {keys : List String} (h : o.keys? = some keys) :
    ∃ record, o.result = .ok record ∧ record.keys = keys := by
  unfold keys? at h
  cases hresult : o.result with
  | ok record =>
    rw [hresult] at h
    exact ⟨record, rfl, Option.some.inj h⟩
  | error halt =>
    rw [hresult] at h
    cases h

theorem result_of_keys?_none {o : Outcome} (h : o.keys? = none) :
    ∃ halt, o.result = .error halt := by
  unfold keys? at h
  cases hresult : o.result with
  | ok record =>
    rw [hresult] at h
    cases h
  | error halt => exact ⟨halt, rfl⟩

end Outcome

/-- What two decodes come to: the same, or they parted. -/
inductive Sides.Outcomes (p : Sides) (o o' : Outcome) : Prop where
  | level : o'.result = o.result → p.reported o.diagnostics o'.diagnostics → Outcomes p o o'
  | parted {halt : Halt} : o.result = .error halt →
      p.parted halt o.diagnostics o'.diagnostics → Outcomes p o o'

namespace Decoder

variable {data : List UInt8} {levels : Nat} {t : State}

def block (levels : Nat) (setting : Setting) (data : List UInt8) : EStateM.Result Halt State Unit :=
  Block.run setting (Block.callWithin setting levels) setting.schema.spec (started setting data)

/-- After its top-level block a decode only gives the root record, and cannot fail any more. -/
theorem program_eq : program A levels (initial A data) =
    match block levels A data with
    | .ok _ t => .ok t.scopes.root
      { t with log := .completed t.scopes.root.length t.cursor.offset t.cursor.length :: t.log }
    | .error halt t => .error halt t := by
  have started : program A levels (initial A data) = (do
      Block.run A (Block.callWithin A levels) A.schema.spec
      let record ← root
      let c ← Run.cursor
      Run.log (.completed record.length c.offset c.length)
      return record) (started A data) := rfl
  rw [started, run_bind]
  cases h : block levels A data with
  | error halt t =>
    unfold block at h
    rw [h]
  | ok _ t =>
    have closed := root_of_balanced (Block.run_balanced started_inside h)
    unfold block at h
    rw [h]
    dsimp only
    rw [run_bind, closed]
    rfl

theorem decodeWithin_of_ok (h : block levels A data = .ok () t) :
    (decodeWithin levels A data).result = .ok t.scopes.root ∧
      (decodeWithin levels A data).diagnostics = t.diagnostics := by
  rw [decodeWithin, EStateM.run, program_eq, h]
  exact ⟨rfl, (Log.diagnostics_cons _ _).trans (List.append_nil _)⟩

theorem decodeWithin_of_error {halt : Halt} (h : block levels A data = .error halt t) :
    (decodeWithin levels A data).result = .error halt ∧
      (decodeWithin levels A data).diagnostics = t.diagnostics := by
  rw [decodeWithin, EStateM.run, program_eq, h]
  exact ⟨rfl, rfl⟩

theorem started_alike {input : List UInt8} (hinput : p.data ++ p.tail = input)
    (records : p.scopes = Eq) (nil : p.reported [] []) (order : order B = order A) :
    p.Alike (started A p.data) (started B input) where
  data := rfl
  inside := started_inside
  cursor := by
    show Cursor.start _ _ = (Cursor.start _ _).extend _
    rw [order, ← hinput]
    rfl
  scopes := by
    rw [records]
    rfl
  regions := rfl
  depth := rfl
  reported := nil

theorem outcomes_of_pairs {input : List UInt8} (records : p.scopes = Eq)
    (h : p.pace.Pairs (block levels A p.data) (block levels B input)) :
    p.Outcomes (decodeWithin levels A p.data) (decodeWithin levels B input) := by
  generalize hr : block levels A p.data = r at h
  generalize hr' : block levels B input = r' at h
  cases h with
  | @ok _ t t' hs =>
    obtain ⟨result, reports⟩ := decodeWithin_of_ok hr
    obtain ⟨result', reports'⟩ := decodeWithin_of_ok hr'
    have same : t.scopes = t'.scopes := records ▸ hs.scopes
    refine .level ?_ (reports ▸ reports' ▸ hs.reported)
    rw [result, result', same]
  | error hs =>
    obtain ⟨result, reports⟩ := decodeWithin_of_error hr
    obtain ⟨result', reports'⟩ := decodeWithin_of_error hr'
    exact .level (result'.trans result.symm) (reports ▸ reports' ▸ hs.reported)
  | partedOk hp =>
    obtain ⟨result, reports⟩ := decodeWithin_of_error hr
    exact .parted result (reports ▸ (decodeWithin_of_ok hr').2 ▸ hp)
  | partedError hp =>
    obtain ⟨result, reports⟩ := decodeWithin_of_error hr
    exact .parted result (reports ▸ (decodeWithin_of_error hr').2 ▸ hp)

/-- Decodes of the same nodes, with template calls nested equally deep, stay in step to the end. -/
theorem decodeWithin_follows {input : List UInt8} (hinput : p.data ++ p.tail = input)
    (strict : p.tail = [] ∨ ∀ node, Occurs A.schema A.schema.spec node → node.isStrict = true)
    (records : p.scopes = Eq) (nil : p.reported [] [])
    (spec : B.schema.spec = A.schema.spec) (order : order B = order A) (levels : Nat) :
    p.Outcomes (decodeWithin levels A p.data) (decodeWithin levels B input) := by
  have follows := Block.run_follows (Block.callWithin_inStep levels strict)
  refine outcomes_of_pairs records ?_
  unfold block
  rw [spec]
  exact follows.pairs _ _ (started_alike hinput records nil order)

end Decoder

end ByteSchema
