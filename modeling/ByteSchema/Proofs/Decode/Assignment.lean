import ByteSchema.Proofs.Decode.Merged

/-!
# Assignments and what is read back

An assignment goes to one field of one record, and the rest of the records stays as it is:
`Assigned`. The open scopes and the root are searched for the name, but not the arguments of the
template call, which a lookup comes across before the root. So the value is what the name refers to
afterwards, but for a name that no open scope has and an argument has: `Assigned.readsBack`.
-/

namespace ByteSchema

namespace Scopes

variable {id : String} {v : Value} {s t : Scopes}

/-- None of the records has a field of the name. -/
def Unnamed (id : String) (records : List Record) : Prop := ∀ r ∈ records, id ∉ r.keys

instance (id : String) (records : List Record) : Decidable (Unnamed id records) :=
  inferInstanceAs (Decidable (∀ r ∈ records, id ∉ r.keys))

/-- The argument of the template call under way. -/
def argument? (s : Scopes) (id : String) : Option Value := s.frames.head?.bind fun r => r.get? id

/-- The value of one field changes in place, or the target has one field more behind its others. -/
inductive Assigned (id : String) (v : Value) : Scopes → Scopes → Prop where
  | scope {root front back : Record} {old : Value} {nearer farther frames : List Record} :
      Unnamed id nearer → id ∉ front.keys →
      Assigned id v ⟨root, nearer ++ (front ++ (id, old) :: back) :: farther, frames⟩
        ⟨root, nearer ++ (front ++ (id, v) :: back) :: farther, frames⟩
  | root {front back : Record} {old : Value} {inner frames : List Record} :
      Unnamed id inner → id ∉ front.keys →
      Assigned id v ⟨front ++ (id, old) :: back, inner, frames⟩
        ⟨front ++ (id, v) :: back, inner, frames⟩
  | newInScope {root r : Record} {farther frames : List Record} :
      Unnamed id (r :: farther) → id ∉ root.keys →
      Assigned id v ⟨root, r :: farther, frames⟩ ⟨root, (r ++ [(id, v)]) :: farther, frames⟩
  | newInRoot {root : Record} {frames : List Record} : id ∉ root.keys →
      Assigned id v ⟨root, [], frames⟩ ⟨root ++ [(id, v)], [], frames⟩

/-- The name refers to the value, unless the argument of the name comes first. -/
structure ReadsBack (id : String) (v : Value) (s : Scopes) : Prop where
  value : ¬ Unnamed id s.inner ∨ s.argument? id = none → s.resolve id = v
  argument {p : Value} : Unnamed id s.inner → s.argument? id = some p → s.resolve id = p

/-! ### What is assigned -/

theorem unnamed_or_nearest (id : String) (records : List Record) :
    Unnamed id records ∨ ∃ nearer r farther, Unnamed id nearer ∧ id ∈ r.keys ∧
      records = nearer ++ r :: farther := by
  induction records with
  | nil => exact .inl (List.forall_mem_nil _)
  | cons r rest ih =>
    by_cases held : id ∈ r.keys
    · exact .inr ⟨[], r, rest, List.forall_mem_nil _, held, rfl⟩
    · obtain unnamed | ⟨nearer, found, farther, unnamed, there, rfl⟩ := ih
      · exact .inl (List.forall_mem_cons.mpr ⟨held, unnamed⟩)
      · have unnamed : Unnamed id (r :: nearer) := List.forall_mem_cons.mpr ⟨held, unnamed⟩
        exact .inr ⟨r :: nearer, found, farther, unnamed, there, rfl⟩

theorem assignIn?_of_unnamed {records : List Record} (unnamed : Unnamed id records) (v : Value) :
    assignIn? id v records = none := by
  induction records with
  | nil => rfl
  | cons r rest ih =>
    obtain ⟨missing, unnamed⟩ := List.forall_mem_cons.mp unnamed
    rw [assignIn?, if_neg (mt Record.contains_iff.mp missing), ih unnamed, Option.map_none]

theorem assignIn?_of_nearest {nearer : List Record} {r : Record} (unnamed : Unnamed id nearer)
    (held : id ∈ r.keys) (v : Value) (farther : List Record) :
    assignIn? id v (nearer ++ r :: farther) = some (nearer ++ r.insert id v :: farther) := by
  rw [assignIn?_append, assignIn?_of_unnamed unnamed, assignIn?]
  rw [if_pos (Record.contains_iff.mpr held)]
  rfl

theorem Assigned.eq_assign (h : Assigned id v s t) : t = s.assign id v := by
  unfold assign
  cases h with
  | scope unnamed fresh =>
    rw [assignIn?_of_nearest unnamed Record.mem_keys_of_field]
    simp only [Record.insert, Table.insert_of_first fresh]
  | root unnamed fresh =>
    rw [assignIn?_of_unnamed unnamed]
    simp only [Record.contains_iff.mpr Record.mem_keys_of_field, if_true]
    simp only [Record.insert, Table.insert_of_first fresh]
  | newInScope unnamed missing =>
    rw [assignIn?_of_unnamed unnamed]
    simp only [mt Record.contains_iff.mp missing, write, mapTarget]
    have fresh := (List.forall_mem_cons.mp unnamed).1
    simp [Record.insert, Table.insert_of_notMem v fresh]
  | newInRoot missing =>
    rw [assignIn?_of_unnamed (List.forall_mem_nil _)]
    simp only [mt Record.contains_iff.mp missing, write, mapTarget]
    simp [Record.insert, Table.insert_of_notMem v missing]

theorem exists_assigned (id : String) (v : Value) (s : Scopes) : ∃ t, Assigned id v s t := by
  obtain ⟨root, inner, frames⟩ := s
  obtain unnamed | ⟨nearer, r, farther, unnamed, held, rfl⟩ := unnamed_or_nearest id inner
  · by_cases held : id ∈ root.keys
    · obtain ⟨front, old, back, fresh, rfl⟩ := Table.exists_first held
      exact ⟨_, .root unnamed fresh⟩
    · cases inner with
      | nil => exact ⟨_, .newInRoot held⟩
      | cons r farther => exact ⟨_, .newInScope unnamed held⟩
  · obtain ⟨front, old, back, fresh, rfl⟩ := Table.exists_first held
    exact ⟨_, .scope unnamed fresh⟩

theorem assigned_iff : Assigned id v s t ↔ t = s.assign id v := by
  constructor
  · exact Assigned.eq_assign
  · -- The state before determines the one after, so the one that exists is this one.
    rintro rfl
    obtain ⟨t, h⟩ := exists_assigned id v s
    exact h.eq_assign ▸ h

/-! ### What is read back -/

theorem resolve_eq (name : Path.isName id) (s : Scopes) :
    s.resolve id = ((s.inner.findSome? fun r => r.get? id).or
      ((s.argument? id).or (s.root.get? id))).getD .undefined := by
  obtain ⟨root, inner, frames⟩ := s
  rw [resolve_name name, visible, List.findSome?_append, List.findSome?_append, Option.or_assoc]
  cases frames <;> simp [argument?]

theorem findSome?_of_unnamed {records : List Record} (unnamed : Unnamed id records) :
    (records.findSome? fun r => r.get? id) = none :=
  List.findSome?_eq_none_iff.mpr fun r hr => Record.get?_eq_none_iff.mpr (unnamed r hr)

theorem ReadsBack.of_scope (name : Path.isName id)
    (found : (s.inner.findSome? fun r => r.get? id) = some v) : ReadsBack id v s := by
  constructor
  · intro _
    rw [resolve_eq name, found]
    rfl
  · intro p unnamed
    rw [findSome?_of_unnamed unnamed] at found
    cases found

theorem ReadsBack.of_root (name : Path.isName id) (unnamed : Unnamed id s.inner)
    (found : s.root.get? id = some v) : ReadsBack id v s := by
  constructor
  · rintro (named | free)
    · exact absurd unnamed named
    · rw [resolve_eq name, findSome?_of_unnamed unnamed, free, found]
      rfl
  · intro p _ argument
    rw [resolve_eq name, findSome?_of_unnamed unnamed, argument]
    rfl

theorem Assigned.readsBack (h : Assigned id v s t) (name : Path.isName id) : ReadsBack id v t := by
  cases h with
  | scope unnamed fresh =>
    apply ReadsBack.of_scope name
    rw [List.findSome?_append, findSome?_of_unnamed unnamed, List.findSome?_cons,
      Record.get?_of_first fresh]
    rfl
  | root unnamed fresh => exact .of_root name unnamed (Record.get?_of_first fresh v _)
  | newInScope unnamed missing =>
    apply ReadsBack.of_scope name
    rw [List.findSome?_cons, Record.get?_of_first (List.forall_mem_cons.mp unnamed).1]
  | newInRoot missing => exact .of_root name (List.forall_mem_nil _) (Record.get?_of_first missing v [])

/-- An assignment changes the value of one field in place, or adds a field to the target where none
has the name. Then the name refers to the value, except exactly where it is in no open scope and an
argument has it: then it refers to the argument. -/
theorem assignments_read_back {id : String} (name : Path.isName id) (s : Scopes) (v : Value) :
    (∀ t, Assigned id v s t ↔ t = s.assign id v) ∧ ReadsBack id v (s.assign id v) := by
  have assigned : Assigned id v s (s.assign id v) := assigned_iff.mpr rfl
  exact ⟨fun t => assigned_iff, assigned.readsBack name⟩

end Scopes

namespace DecodeSample

/-- In a call with the argument `total`. -/
def called : Scopes where
  root := [("total", .int 0), ("size", .int 1)]
  inner := [[("x", .int 2)], [("y", .int 3), ("x", .int 4)]]
  frames := [[("total", .int 5)], [("y", .int 6)]]

end DecodeSample

namespace Scopes

open DecodeSample

/-- The root has the value, and the name refers to the argument. -/
theorem assignments_read_back_hidden :
    called.assign "total" (.int 7) =
      { called with root := [("total", .int 7), ("size", .int 1)] } ∧
    (called.assign "total" (.int 7)).resolve "total" = .int 5 ∧
    (called.assign "y" (.int 7)).resolve "y" = .int 7 ∧
    (called.assign "z" (.int 7)).resolve "z" = .int 7 := by
  have hidden := @assignments_read_back "total" rfl called (.int 7)
  have outer := @assignments_read_back "y" rfl called (.int 7)
  have fresh := @assignments_read_back "z" rfl called (.int 7)
  refine ⟨((hidden.1 _).mp ?_).symm, hidden.2.argument (by decide) rfl,
    outer.2.value (.inl (by decide)), fresh.2.value (.inl (by decide))⟩
  exact @Assigned.root _ _ [] [("size", .int 1)] _ _ _ (by decide) List.not_mem_nil

end Scopes

end ByteSchema
