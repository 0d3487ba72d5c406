import ByteSchema.Value.Basic

/-!
# Fields of records

What `get?` sees of an insertion: the value at its own name, and no difference at any other. No
change of a record removes names or moves them. What a lookup finds is in the table. A change comes
to the same before a merge and after it.
-/

namespace ByteSchema

namespace Table

variable {κ α : Type} [DecidableEq κ]

section Lookup

variable [BEq κ] [LawfulBEq κ]

theorem lookup_insert_self (table : List (κ × α)) (key : κ) (value : α) :
    (insert table key value).lookup key = some value := by
  induction table with
  | nil => simp [insert]
  | cons pair rest ih =>
    obtain ⟨k, old⟩ := pair
    unfold insert
    split
    · next hk => simp [hk]
    · next hk => rw [List.lookup_cons, beq_false_of_ne (Ne.symm hk), ih]

theorem lookup_insert_of_ne (table : List (κ × α)) {key other : κ} (value : α) (h : other ≠ key) :
    (insert table key value).lookup other = table.lookup other := by
  induction table with
  | nil => rw [insert, List.lookup_cons, beq_false_of_ne h]
  | cons pair rest ih =>
    obtain ⟨k, old⟩ := pair
    unfold insert
    split
    · next hk => rw [hk, List.lookup_cons, List.lookup_cons, beq_false_of_ne h]
    · rw [List.lookup_cons, List.lookup_cons, ih]

omit [DecidableEq κ] in
theorem mem_of_lookup {table : List (κ × α)} {key : κ} {value : α}
    (h : table.lookup key = some value) : (key, value) ∈ table := by
  obtain ⟨before, after, rfl, -⟩ := List.lookup_eq_some_iff.mp h
  simp

omit [DecidableEq κ] in
theorem lookup_isSome {table : List (κ × α)} {key : κ} :
    (table.lookup key).isSome = true ↔ key ∈ table.map Prod.fst := by
  simp only [List.lookup_isSome_iff, List.mem_map, beq_iff_eq, @eq_comm _ _ key]

omit [DecidableEq κ] in
theorem lookup_of_mem {table : List (κ × α)} (single : (table.map Prod.fst).Nodup) {key : κ}
    {value : α} (h : (key, value) ∈ table) : table.lookup key = some value := by
  induction table with
  | nil => cases h
  | cons pair rest ih =>
    obtain ⟨fresh, single⟩ := List.nodup_cons.mp single
    obtain same | later := List.mem_cons.mp h
    · rw [← same, List.lookup_cons_self]
    · have ne : key ≠ pair.1 := by
        rintro rfl
        exact fresh (List.mem_map.mpr ⟨_, later, rfl⟩)
      rw [List.lookup_cons, beq_false_of_ne ne, ih single later]

end Lookup

theorem insert_of_notMem {table : List (κ × α)} {key : κ} (value : α)
    (h : key ∉ table.map Prod.fst) : insert table key value = table ++ [(key, value)] := by
  induction table with
  | nil => rfl
  | cons pair rest ih =>
    obtain ⟨k, old⟩ := pair
    obtain ⟨ne, h⟩ := not_or.mp (mt List.mem_cons.mpr h)
    rw [insert, if_neg (Ne.symm ne), ih h, List.cons_append]

theorem insert_of_first {front : List (κ × α)} {key : κ} (h : key ∉ front.map Prod.fst)
    (old value : α) (back : List (κ × α)) :
    insert (front ++ (key, old) :: back) key value = front ++ (key, value) :: back := by
  induction front with
  | nil => rw [List.nil_append, List.nil_append, insert, if_pos rfl]
  | cons pair rest ih =>
    obtain ⟨k, held⟩ := pair
    obtain ⟨ne, h⟩ := not_or.mp (mt List.mem_cons.mpr h)
    rw [List.cons_append, List.cons_append, insert, if_neg (Ne.symm ne), ih h]

theorem exists_first {table : List (κ × α)} {key : κ} (h : key ∈ table.map Prod.fst) :
    ∃ front old back, key ∉ front.map Prod.fst ∧ table = front ++ (key, old) :: back := by
  induction table with
  | nil => cases h
  | cons pair rest ih =>
    by_cases same : key = pair.1
    · exact ⟨[], pair.2, rest, List.not_mem_nil, by rw [same]; rfl⟩
    · obtain ⟨front, old, back, fresh, rfl⟩ := ih (List.mem_of_ne_of_mem same h)
      exact ⟨pair :: front, old, back, List.not_mem_cons_of_ne_of_not_mem same fresh, rfl⟩

/-- A key that is there keeps its place. -/
theorem keys_insert_eq (table : List (κ × α)) (key : κ) (value : α) :
    (insert table key value).map Prod.fst =
      if key ∈ table.map Prod.fst then table.map Prod.fst else table.map Prod.fst ++ [key] := by
  by_cases held : key ∈ table.map Prod.fst
  · rw [if_pos held]
    obtain ⟨front, old, back, fresh, rfl⟩ := exists_first held
    rw [insert_of_first fresh]
    simp
  · rw [if_neg held, insert_of_notMem value held]
    simp

theorem keys_insert (table : List (κ × α)) (key : κ) (value : α) :
    table.map Prod.fst <+: (insert table key value).map Prod.fst := by
  rw [keys_insert_eq]
  split
  · exact List.prefix_rfl
  · exact List.prefix_append _ _

theorem nodup_insert {table : List (κ × α)} (single : (table.map Prod.fst).Nodup) (key : κ)
    (value : α) : ((insert table key value).map Prod.fst).Nodup := by
  rw [keys_insert_eq]
  split
  · exact single
  · next fresh =>
    refine List.nodup_append.mpr ⟨single, List.pairwise_singleton _ _, fun k hk other hother => ?_⟩
    rintro rfl
    exact fresh (List.mem_singleton.mp hother ▸ hk)

/-- Keys that are there once come into a table in their order. -/
theorem foldl_insert {table added : List (κ × α)}
    (single : ((table ++ added).map Prod.fst).Nodup) :
    added.foldl (fun all pair => insert all pair.1 pair.2) table = table ++ added := by
  induction added generalizing table with
  | nil => exact (List.append_nil table).symm
  | cons pair rest ih =>
    have fresh : pair.1 ∉ table.map Prod.fst := by
      rw [List.map_append, List.map_cons] at single
      intro held
      exact (List.nodup_append.mp single).2.2 _ held _ List.mem_cons_self rfl
    rw [List.append_cons] at single ⊢
    rw [List.foldl_cons, insert_of_notMem pair.2 fresh]
    exact ih single

theorem insert_insert (table : List (κ × α)) (key : κ) (old value : α) :
    insert (insert table key old) key value = insert table key value := by
  induction table with
  | nil => simp [insert]
  | cons pair rest ih =>
    obtain ⟨k, held⟩ := pair
    by_cases h : k = key <;> simp [insert, h, ih]

/-- A value that goes to a place of its own does not move what is put behind. -/
theorem insert_comm {table : List (κ × α)} {key other : κ} (value added : α)
    (present : (table.lookup key).isSome) (ne : other ≠ key) :
    insert (insert table other added) key value = insert (insert table key value) other added := by
  induction table with
  | nil => cases present
  | cons pair rest ih =>
    obtain ⟨k, held⟩ := pair
    by_cases hkey : k = key
    · subst hkey
      simp [insert, ne.symm]
    · by_cases hother : k = other
      · subst hother
        simp [insert, hkey]
      · rw [List.lookup_cons, beq_false_of_ne (Ne.symm hkey)] at present
        simp [insert, hkey, hother, ih present]

end Table

namespace Record

variable (r : Record) (id : String) (value : Value)

theorem get?_insert_self : (r.insert id value).get? id = some value :=
  Table.lookup_insert_self r id value

theorem get?_insert_of_ne {other : String} (h : other ≠ id) :
    (r.insert id value).get? other = r.get? other :=
  Table.lookup_insert_of_ne r value h

theorem get?_pushItem {items : List Value} (h : r.get? id = some (.list items)) :
    (r.pushItem id value).get? id = some (.list (items ++ [value])) := by
  rw [pushItem, h]
  exact get?_insert_self r id _

theorem keys_insert : r.keys <+: (r.insert id value).keys := Table.keys_insert r id value

theorem keys_merge (other : Record) : r.keys <+: (r.merge other).keys := by
  induction other generalizing r with
  | nil => exact List.prefix_rfl
  | cons field rest ih => exact (r.keys_insert field.1 field.2).trans (ih _)

theorem keys_pushItem : r.keys <+: (r.pushItem id value).keys := by
  unfold pushItem
  split <;> exact r.keys_insert id _

/-! ### Merged records -/

section

variable {r fields : Record} {id : String}

theorem get?_eq_none_iff : r.get? id = none ↔ id ∉ r.keys := by
  rw [get?, List.lookup_eq_none_iff, keys, List.mem_map]
  constructor
  · rintro h ⟨field, hfield, rfl⟩
    simpa using h field hfield
  · intro h field hfield
    simpa using fun same : id = field.1 => h ⟨field, hfield, same.symm⟩

theorem contains_iff : r.contains id ↔ id ∈ r.keys := by
  rw [contains, Option.isSome_iff_ne_none, Ne, get?_eq_none_iff, Decidable.not_not]

theorem mem_keys_of_field {front back : Record} {old : Value} :
    id ∈ keys (front ++ (id, old) :: back) := by
  simp [keys]

theorem get?_of_first {front : Record} (fresh : id ∉ front.keys) (value : Value) (back : Record) :
    get? (front ++ (id, value) :: back) id = some value := by
  have missing : front.lookup id = none := get?_eq_none_iff.mpr fresh
  rw [get?, List.lookup_append, missing, List.lookup_cons_self]
  rfl

/-- Names are single, so no later field of the same name hides the one that is found. -/
theorem get?_merge (single : fields.keys.Nodup) (r : Record) (id : String) :
    (r.merge fields).get? id = (fields.get? id).or (r.get? id) := by
  induction fields generalizing r with
  | nil => rfl
  | cons field rest ih =>
    obtain ⟨name, value⟩ := field
    obtain ⟨fresh, single⟩ := List.nodup_cons.mp single
    have step : (r.merge ((name, value) :: rest)).get? id =
      ((r.insert name value).merge rest).get? id := rfl
    rw [step, ih single]
    by_cases h : id = name
    · subst h
      rw [get?_eq_none_iff.mpr fresh, get?_insert_self, get?, List.lookup_cons_self]
      rfl
    · rw [get?_insert_of_ne _ _ _ h]
      simp only [get?, List.lookup_cons, beq_false_of_ne h]

/-- Of fields with one name the last one stays. -/
theorem get?_merge_reverse (r : Record) (fields : List (String × Value)) (id : String) :
    (r.merge fields).get? id = (fields.reverse.lookup id).or (r.get? id) := by
  induction fields generalizing r with
  | nil => rfl
  | cons field rest ih =>
    obtain ⟨name, value⟩ := field
    have step : (r.merge ((name, value) :: rest)).get? id =
      ((r.insert name value).merge rest).get? id := rfl
    rw [step, ih, List.reverse_cons, List.lookup_append, Option.or_assoc]
    congr 1
    by_cases h : id = name
    · subst h
      rw [get?_insert_self, List.lookup_cons_self]
      rfl
    · rw [get?_insert_of_ne _ _ _ h, List.lookup_cons, beq_false_of_ne h]
      rfl

theorem get?_ofList (fields : List (String × Value)) (id : String) :
    (ofList fields).get? id = fields.reverse.lookup id := by
  rw [ofList, get?_merge_reverse]
  exact Option.or_none

theorem isSome_get?_ofList {fields : List (String × Value)} :
    ((ofList fields).get? id).isSome = true ↔ id ∈ fields.map Prod.fst := by
  rw [get?_ofList, Table.lookup_isSome, List.map_reverse, List.mem_reverse]

theorem merge_insert_of_notMem (held : r.contains id) (fresh : id ∉ fields.keys) (value : Value) :
    (r.merge fields).insert id value = (r.insert id value).merge fields := by
  induction fields generalizing r with
  | nil => rfl
  | cons field rest ih =>
    obtain ⟨name, added⟩ := field
    obtain ⟨ne, fresh⟩ := not_or.mp (mt List.mem_cons.mpr fresh)
    have stays : (r.insert name added).contains id := by
      rw [contains, get?_insert_of_ne _ _ _ ne]
      exact held
    have swapped : (r.insert name added).insert id value = (r.insert id value).insert name added :=
      Table.insert_comm value added held (Ne.symm ne)
    show ((r.insert name added).merge rest).insert id value =
      ((r.insert id value).insert name added).merge rest
    rw [ih stays fresh, swapped]

theorem merge_insert (single : fields.keys.Nodup) (r : Record) (id : String) (value : Value) :
    (r.merge fields).insert id value = r.merge (fields.insert id value) := by
  induction fields generalizing r with
  | nil => rfl
  | cons field rest ih =>
    obtain ⟨name, held⟩ := field
    obtain ⟨fresh, single⟩ := List.nodup_cons.mp single
    by_cases h : name = id
    · subst h
      have replaced : ((r.insert name held).insert name value) = r.insert name value :=
        Table.insert_insert r name held value
      have there : (r.insert name held).contains name := by
        rw [contains, get?_insert_self]
        rfl
      have inserted : insert ((name, held) :: rest) name value = (name, value) :: rest := by
        simp [insert, Table.insert]
      rw [inserted]
      show ((r.insert name held).merge rest).insert name value =
        (r.insert name value).merge rest
      rw [merge_insert_of_notMem there fresh, replaced]
    · have inserted : insert ((name, held) :: rest) id value =
          (name, held) :: Record.insert rest id value := by
        simp [insert, Table.insert, h]
      rw [inserted]
      exact ih single (r.insert name held)

theorem nodup_insert (single : r.keys.Nodup) (id : String) (value : Value) :
    (r.insert id value).keys.Nodup :=
  Table.nodup_insert single id value

/-- What `f` does to the fields of `r` when they are in another record, it does to `r` before. -/
structure Through (f : Record → Record) (r : Record) : Prop where
  merge (other : Record) : f (other.merge r) = other.merge (f r)
  single : (f r).keys.Nodup
  keys : r.keys <+: (f r).keys

theorem through_insert (single : r.keys.Nodup) (id : String) (value : Value) :
    Through (fun r => r.insert id value) r where
  merge other := merge_insert single other id value
  single := nodup_insert single id value
  keys := r.keys_insert id value

theorem through_merge (single : r.keys.Nodup) (fields : Record) :
    Through (fun r => r.merge fields) r := by
  induction fields generalizing r with
  | nil => exact ⟨fun _ => rfl, single, List.prefix_rfl⟩
  | cons field rest ih =>
    have first := through_insert single field.1 field.2
    have others := ih first.single
    refine ⟨fun other => ?_, others.single, first.keys.trans others.keys⟩
    show ((other.merge r).insert field.1 field.2).merge rest =
      other.merge ((r.insert field.1 field.2).merge rest)
    rw [first.merge other, others.merge other]

/-- A list that `r` has itself is the one that grows. -/
theorem through_pushItem (single : r.keys.Nodup) (held : id ∈ r.keys) (item : Value) :
    Through (fun r => r.pushItem id item) r := by
  have found (other : Record) : (other.merge r).get? id = r.get? id := by
    rw [get?_merge single]
    obtain ⟨value, hvalue⟩ := Option.isSome_iff_exists.mp (contains_iff.mpr held)
    rw [hvalue]
    rfl
  have inserted (value : Value) := through_insert single id value
  refine ⟨fun other => ?_, ?_, r.keys_pushItem id item⟩
  · unfold pushItem
    rw [found other]
    split <;> exact (inserted _).merge other
  · unfold pushItem
    split <;> exact (inserted _).single

end

end Record

end ByteSchema
