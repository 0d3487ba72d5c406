import ByteSchema.Proofs.Value.Record
import Mathlib.Data.List.Induction

/-!
# Records and what was written to them

Whatever is done to records comes to writes of single fields, one after the other: `history`. The
record is made of these alone (`run_eq`), so it has the names in the order in which they were first
written and for each one what was written last. To merge is to write after all else, and it makes no
difference whether some of the writes are put together before.
-/

namespace ByteSchema

namespace Table

variable {κ α : Type} [DecidableEq κ] {table : List (κ × α)} {key : κ}

theorem modify_of_lookup [BEq κ] [LawfulBEq κ] {value : α} (h : table.lookup key = some value)
    (f : α → α) : modify table key f = insert table key (f value) := by
  induction table with
  | nil => cases h
  | cons pair rest ih =>
    obtain ⟨k, held⟩ := pair
    by_cases same : k = key
    · subst same
      rw [List.lookup_cons_self] at h
      obtain rfl := Option.some.inj h
      rw [modify, insert, if_pos rfl, if_pos rfl]
    · rw [List.lookup_cons, beq_false_of_ne (Ne.symm same)] at h
      rw [modify, insert, if_neg same, if_neg same, ih h]

theorem modify_of_notMem (h : key ∉ table.map Prod.fst) (f : α → α) :
    modify table key f = table := by
  induction table with
  | nil => rfl
  | cons pair rest ih =>
    obtain ⟨ne, h⟩ := not_or.mp (mt List.mem_cons.mpr h)
    rw [modify, if_neg (Ne.symm ne), ih h]

end Table

namespace Record

inductive Change where
  | insert (id : String) (value : Value)
  | modify (id : String) (f : Value → Value)
  | merge (other : Record)
  | pushItem (id : String) (item : Value)
  /-- The record is made anew of the fields, and is empty before. -/
  | collect (fields : List (String × Value))

def Change.apply (r : Record) : Change → Record
  | .insert id value => r.insert id value
  | .modify id f => r.modify id f
  | .merge other => r.merge other
  | .pushItem id item => r.pushItem id item
  | .collect fields => ofList fields

/-- The record after the changes, which was empty before. -/
def run (changes : List Change) : Record := changes.foldl Change.apply empty

/-! ### Writes -/

def lastWrite? (writes : List (String × Value)) (id : String) : Option Value :=
  writes.reverse.lookup id

def itemsOf : Option Value → List Value
  | some (.list items) => items
  | _ => []

/-- The writes with those of a change. A changed value is one only where there was a write before,
and a new list has all the items. -/
def Change.logged (writes : List (String × Value)) : Change → List (String × Value)
  | .insert id value => writes ++ [(id, value)]
  | .modify id f => writes ++ ((lastWrite? writes id).map fun value => (id, f value)).toList
  | .merge other => writes ++ other
  | .pushItem id item => writes ++ [(id, .list (itemsOf (lastWrite? writes id) ++ [item]))]
  | .collect fields => fields

/-- All writes since the record was last collected, the first one first. -/
def history (changes : List Change) : List (String × Value) := changes.foldl Change.logged []

theorem ofList_append (writes more : List (String × Value)) :
    ofList (writes ++ more) = (ofList writes).merge more := List.foldl_append

theorem ofList_concat (writes : List (String × Value)) (id : String) (value : Value) :
    ofList (writes ++ [(id, value)]) = (ofList writes).insert id value := ofList_append _ _

theorem apply_ofList (writes : List (String × Value)) (change : Change) :
    change.apply (ofList writes) = ofList (change.logged writes) := by
  cases change with
  | insert id value => exact (ofList_concat writes id value).symm
  | modify id f =>
    have held := get?_ofList writes id
    show (ofList writes).modify id f = ofList (writes ++ Option.toList _)
    cases last : lastWrite? writes id with
    | none =>
      have missing : id ∉ (ofList writes).keys := get?_eq_none_iff.mp (held.trans last)
      rw [Option.map_none, Option.toList_none, List.append_nil]
      exact Table.modify_of_notMem missing f
    | some value =>
      rw [Option.map_some, Option.toList_some, ofList_concat]
      exact Table.modify_of_lookup (held.trans last) f
  | merge other => exact (ofList_append writes other).symm
  | pushItem id item =>
    have held : (ofList writes).get? id = lastWrite? writes id := get?_ofList writes id
    show (ofList writes).pushItem id item = ofList (writes ++ [(id, _)])
    rw [ofList_concat, pushItem, held]
    -- A list has one item more; all else gives way to a list of the item, as if there were nothing.
    cases lastWrite? writes id with
    | none => rfl
    | some value => cases value <;> rfl
  | collect fields => rfl

theorem foldl_apply (changes : List Change) (writes : List (String × Value)) :
    changes.foldl Change.apply (ofList writes) = ofList (changes.foldl Change.logged writes) := by
  induction changes generalizing writes with
  | nil => rfl
  | cons change rest ih =>
    rw [List.foldl_cons, List.foldl_cons, apply_ofList]
    exact ih _

theorem run_eq (changes : List Change) : run changes = ofList (history changes) :=
  foldl_apply changes []

/-! ### What the writes leave -/

structure Holds (r : Record) (writes : List (String × Value)) : Prop where
  once : r.keys.Nodup
  /-- Of the writes to a name only the first one counts for its place. -/
  order : r.keys = (writes.map Prod.fst).eraseDups
  values (id : String) : r.get? id = lastWrite? writes id
  size : r.length = (writes.map Prod.fst).eraseDups.length

theorem eraseDups_concat (names : List String) (name : String) :
    (names ++ [name]).eraseDups =
      if name ∈ names then names.eraseDups else names.eraseDups ++ [name] := by
  rw [List.eraseDups_append]
  by_cases held : name ∈ names
  · simp [List.removeAll, held]
  · simp [List.removeAll, held, List.eraseDups_cons]

theorem keys_ofList (writes : List (String × Value)) :
    (ofList writes).keys = (writes.map Prod.fst).eraseDups := by
  induction writes using List.reverseRecOn with
  | nil => rfl
  | append_singleton writes last ih =>
    have step : ((ofList writes).insert last.1 last.2).keys =
        if last.1 ∈ (ofList writes).keys then (ofList writes).keys
        else (ofList writes).keys ++ [last.1] :=
      Table.keys_insert_eq _ _ _
    rw [ofList_concat, step, ih, List.map_append, List.map_singleton, eraseDups_concat]
    simp only [List.mem_eraseDups]

theorem nodup_ofList (writes : List (String × Value)) : (ofList writes).keys.Nodup := by
  have start : empty.keys.Nodup := List.nodup_nil
  exact (through_merge start writes).single

theorem holds_ofList (writes : List (String × Value)) : Holds (ofList writes) writes where
  once := nodup_ofList writes
  order := keys_ofList writes
  values := get?_ofList writes
  size := by
    rw [← keys_ofList, keys, List.length_map]

/-! ### Merges -/

theorem merge_assoc {r : Record} (single : r.keys.Nodup) (other fields : Record) :
    (other.merge r).merge fields = other.merge (r.merge fields) :=
  (through_merge single fields).merge other

theorem empty_merge {r : Record} (single : r.keys.Nodup) : empty.merge r = r :=
  Table.foldl_insert single

theorem nodup_run (changes : List Change) : (run changes).keys.Nodup := by
  rw [run_eq]
  exact nodup_ofList _

theorem exists_run_iff {r : Record} : (∃ changes, run changes = r) ↔ r.keys.Nodup := by
  constructor
  · rintro ⟨changes, rfl⟩
    exact nodup_run changes
  · intro single
    exact ⟨[.collect r], empty_merge single⟩

/-- After any changes the names of a record are single and in the order in which they were first
written, with the values that were written last. What changes lead to are all records with single
names. A merge of three of these can be made from either end, and one with the empty record is
none. -/
theorem records_ordered :
    (∀ changes, Holds (run changes) (history changes)) ∧
    (∀ r : Record, (∃ changes, run changes = r) ↔ r.keys.Nodup) ∧
    (∀ as bs cs, ((run as).merge (run bs)).merge (run cs) =
      (run as).merge ((run bs).merge (run cs))) ∧
    ∀ changes, empty.merge (run changes) = run changes ∧ (run changes).merge empty = run changes := by
  refine ⟨fun changes => ?_, fun r => exists_run_iff, fun as bs cs => ?_, fun changes => ?_⟩
  · rw [run_eq]
    exact holds_ofList _
  · exact merge_assoc (nodup_run bs) (run as) (run cs)
  · exact ⟨empty_merge (nodup_run changes), rfl⟩

/-- A name that is written again stays where it is. -/
example : run [.insert "a" (.int 1), .insert "b" (.int 2), .merge [("c", .int 3), ("a", .int 4)],
    .pushItem "b" (.int 5), .modify "d" fun v => v] =
    [("a", .int 4), ("b", .list [.int 5]), ("c", .int 3)] := rfl

end Record

end ByteSchema
