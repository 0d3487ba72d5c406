import ByteSchema.Json.Basic
import ByteSchema.Proofs.Value.Record

/-!
# Members of objects

Of members with one name the last one counts, `member?`. An object with a single name is the
`Sole` member of this name, however often it is written.
-/

namespace ByteSchema.Json

section

variable {name : String} {j : Json} {members : List (String × Json)}

theorem member?_isSome : (member? name members).isSome = true ↔ name ∈ members.map Prod.fst := by
  induction members with
  | nil => simp [member?]
  | cons member rest ih =>
    obtain ⟨key, value⟩ := member
    rw [List.map_cons, List.mem_cons, ← ih, member?]
    cases member? name rest with
    | some later => simp
    | none =>
      by_cases same : key = name
      · simp [same]
      · simp [same, Ne.symm same]

theorem member?_eq_none : member? name members = none ↔ name ∉ members.map Prod.fst := by
  rw [← member?_isSome, Option.not_isSome_iff_eq_none]

theorem mem_of_member? (h : member? name members = some j) : (name, j) ∈ members := by
  induction members with
  | nil => cases h
  | cons member rest ih =>
    obtain ⟨key, value⟩ := member
    rw [member?] at h
    cases later : member? name rest with
    | some k =>
      rw [later] at h ih
      exact .tail _ (ih h)
    | none =>
      rw [later] at h
      obtain ⟨rfl, ⟨⟩⟩ := Option.ite_none_right_eq_some.mp h
      exact .head _

/-- A member whose name is there once is found wherever it stands. -/
theorem member?_of_mem (single : (members.map Prod.fst).Nodup) (h : (name, j) ∈ members) :
    member? name members = some j := by
  obtain ⟨k, found⟩ := Option.isSome_iff_exists.mp
    (member?_isSome.mpr (List.mem_map_of_mem (f := Prod.fst) h))
  have unique := Table.lookup_of_mem single (mem_of_member? found)
  rw [Table.lookup_of_mem single h] at unique
  rw [found, Option.some.inj unique]

/-- What is asked of the last member of a name, member by member. -/
theorem member?_cons (key : String) (value : Json) (rest : List (String × Json)) :
    member? name ((key, value) :: rest) =
      if (rest.lookup name).isSome then member? name rest
      else if key = name then some value else none := by
  rw [member?]
  by_cases held : name ∈ rest.map Prod.fst
  · obtain ⟨later, found⟩ := Option.isSome_iff_exists.mp (member?_isSome.mpr held)
    rw [found, if_pos (Table.lookup_isSome.mpr held)]
  · rw [member?_eq_none.mpr held, if_neg (mt Table.lookup_isSome.mp held)]

end

/-- All members have one name, and the last of them the value `j`. -/
structure Sole (members : List (String × Json)) (name : String) (j : Json) : Prop where
  named : ∀ key ∈ members.map Prod.fst, key = name
  last : member? name members = some j

theorem Sole.ne_nil {name : String} {j : Json} {members : List (String × Json)}
    (h : Sole members name j) : members ≠ [] := by
  rintro rfl
  cases h.last

theorem Sole.held {name : String} {j : Json} {members : List (String × Json)}
    (h : Sole members name j) : (members.lookup name).isSome = true :=
  Table.lookup_isSome.mpr (member?_isSome.mp (Option.isSome_of_eq_some h.last))

theorem sole_singleton (name : String) (j : Json) : Sole [(name, j)] name j :=
  ⟨fun _ => List.mem_singleton.mp, by simp [member?]⟩

/-- Nothing is left out by leaving out members with the name of a later one. -/
theorem sole_cons {key name : String} {value j : Json} {rest : List (String × Json)} :
    Sole ((key, value) :: rest) name j ↔
      key = name ∧ (rest = [] ∧ value = j ∨ Sole rest name j) := by
  constructor
  · rintro ⟨named, last⟩
    obtain ⟨rfl, named⟩ := List.forall_mem_cons.mp named
    refine ⟨rfl, ?_⟩
    rw [member?_cons] at last
    cases rest with
    | nil => exact .inl ⟨rfl, Option.some.inj ((if_pos rfl).symm.trans last)⟩
    | cons member more =>
      have same : member.1 = key := named member.1 (.head _)
      have held : ((member :: more).lookup key).isSome = true :=
        Table.lookup_isSome.mpr (by rw [List.map_cons, same]; exact .head _)
      rw [if_pos held] at last
      exact .inr ⟨named, last⟩
  · rintro ⟨rfl, ⟨rfl, rfl⟩ | sole⟩
    · exact sole_singleton key value
    · refine ⟨List.forall_mem_cons.mpr ⟨rfl, sole.named⟩, ?_⟩
      rw [member?_cons, if_pos sole.held, sole.last]

/-! ### Sizes -/

theorem sizeOf_item {j : Json} {items : List Json} (h : j ∈ items) :
    sizeOf j < sizeOf (Json.list items) := by
  have := List.sizeOf_lt_of_mem h
  rw [list.sizeOf_spec]
  omega

theorem sizeOf_member {name : String} {j : Json} {members : List (String × Json)}
    (h : member? name members = some j) : sizeOf j < sizeOf (Json.object members) := by
  have := List.sizeOf_lt_of_mem (mem_of_member? h)
  rw [Prod.mk.sizeOf_spec] at this
  rw [object.sizeOf_spec]
  omega

end ByteSchema.Json
