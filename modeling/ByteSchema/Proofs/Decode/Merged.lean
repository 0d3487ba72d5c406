import ByteSchema.Proofs.Decode.Frame
import ByteSchema.Proofs.Decode.References
import ByteSchema.Proofs.Decode.Steps

/-!
# The record of a call and what it is merged into

A template called at top level writes to a record of its own, which is merged into the root at the
end. `Merged` compares this with writes to the root at once. It is kept by all writes, and nothing
that is referred to by name makes a difference.
-/

namespace ByteSchema

namespace Scopes

theorem assignIn?_append (id : String) (value : Value) (records more : List Record) :
    assignIn? id value (records ++ more) = ((assignIn? id value records).map (· ++ more)).or
      ((assignIn? id value more).map (records ++ ·)) := by
  induction records with
  | nil => simp [assignIn?]
  | cons r rest ih =>
    rw [List.cons_append, assignIn?, assignIn?]
    split
    · rfl
    · rw [ih]
      cases assignIn? id value rest <;> cases assignIn? id value more <;> rfl

/-- The records in a call at top level, and the records with its nodes in place of it, where `height`
more scopes are open. The record of the call has the names in `held`. -/
inductive Merged (height : Nat) (held : List String) : Scopes → Scopes → Prop where
  | intro {root fields : Record} {inner : List Record} : inner.length = height →
      fields.keys.Nodup → (∀ id ∈ held, id ∈ fields.keys) →
      Merged height held ⟨root, inner ++ [fields], [.empty]⟩ ⟨root.merge fields, inner, []⟩

namespace Merged

variable {height : Nat} {held : List String} {a b : Scopes}

theorem opened (root : Record) : Merged 0 [] ⟨root, [.empty], [.empty]⟩ ⟨root, [], []⟩ := by
  show Merged 0 [] ⟨root, [] ++ [.empty], [.empty]⟩ ⟨root.merge .empty, [], []⟩
  exact .intro rfl List.nodup_nil (List.forall_mem_nil _)

theorem resolve (h : Merged height held a b) {path : String} (name : Path.isName path) :
    b.resolve path = a.resolve path := by
  obtain @⟨root, fields, inner, -, single, -⟩ := h
  have outer : (root.merge fields).get? path =
      [fields, .empty, root].findSome? fun r => r.get? path := by
    rw [Record.get?_merge single]
    simp only [List.findSome?_cons, List.findSome?_nil]
    cases fields.get? path with
    | some value => rfl
    | none => cases root.get? path <;> rfl
  rw [resolve_name name, resolve_name name]
  simp [visible, List.findSome?_append, outer]

/-- A change of the target is one of the record of the call only where no other scope is open. -/
theorem mapTarget (h : Merged height held a b) {f : Record → Record}
    (through : height = 0 → ∀ fields : Record, fields.keys.Nodup → (∀ id ∈ held, id ∈ fields.keys) →
      Record.Through f fields) : Merged height held (a.mapTarget f) (b.mapTarget f) := by
  obtain @⟨root, fields, inner, length, single, names⟩ := h
  cases inner with
  | nil =>
    have change := through length.symm fields single names
    have merged : Merged height held ⟨root, [] ++ [f fields], [.empty]⟩
        ⟨root.merge (f fields), [], []⟩ :=
      .intro length change.single fun id hid => change.keys.mem (names id hid)
    rw [← change.merge] at merged
    exact merged
  | cons r rest =>
    show Merged height held ⟨root, (f r :: rest) ++ [fields], [.empty]⟩
      ⟨root.merge fields, f r :: rest, []⟩
    exact .intro length single names

theorem write (h : Merged height held a b) (id : String) (value : Value) :
    Merged height held (a.write id value) (b.write id value) :=
  h.mapTarget fun _ _ single _ => Record.through_insert single id value

/-- The names in the record of the call after a write of `id` to the target. -/
def listing : Nat → String → List String → List String
  | 0, id, held => id :: held
  | _ + 1, _, held => held

theorem mem_listing (id : String) {other : String} (h : other ∈ held) :
    other ∈ listing height id held := by
  cases height with
  | zero => exact .tail _ h
  | succ height => exact h

theorem forget {more : List String} (h : Merged height more a b)
    (names : ∀ id ∈ held, id ∈ more) : Merged height held a b := by
  obtain ⟨length, single, within⟩ := h
  exact .intro length single fun id hid => within id (names id hid)

theorem listed (h : Merged height held a b) (id : String) (value : Value) :
    Merged height (listing height id held) (a.write id value) (b.write id value) := by
  have written := h.write id value
  have there : id ∈ (a.write id value).target.keys := by
    rw [Scopes.write, target_mapTarget, ← Record.contains_iff, Record.contains,
      Record.get?_insert_self]
    rfl
  cases height with
  | succ height => exact written
  | zero =>
    generalize a.write id value = a, b.write id value = b at written there
    obtain ⟨length, single, names⟩ := written
    obtain rfl := List.eq_nil_of_length_eq_zero length
    exact .intro rfl single (List.forall_mem_cons.mpr ⟨there, names⟩)

theorem pushItem {id : String} (h : Merged height (listing height id held) a b) (item : Value) :
    Merged height (listing height id held) (a.mapTarget fun r => r.pushItem id item)
      (b.mapTarget fun r => r.pushItem id item) := by
  refine h.mapTarget fun bottom fields single names => Record.through_pushItem single ?_ item
  subst bottom
  exact names id (.head _)

theorem push (h : Merged height held a b) : Merged (height + 1) held a.push b.push := by
  obtain @⟨root, fields, inner, length, single, names⟩ := h
  show Merged (height + 1) held ⟨root, (.empty :: inner) ++ [fields], [.empty]⟩
    ⟨root.merge fields, .empty :: inner, []⟩
  exact .intro (congrArg (· + 1) length) single names

theorem pop? (h : Merged (height + 1) held a b) :
    Option.Rel (fun x y => y.1 = x.1 ∧ Merged height held x.2 y.2) a.pop? b.pop? := by
  obtain @⟨root, fields, inner, length, single, names⟩ := h
  cases inner with
  | nil => cases length
  | cons r rest => exact .some ⟨rfl, .intro (Nat.succ.inj length) single names⟩

theorem assign (h : Merged height held a b) (id : String) (value : Value) :
    Merged height held (a.assign id value) (b.assign id value) := by
  have written := h.write id value
  obtain @⟨root, fields, inner, length, single, names⟩ := h
  have seen : (root.merge fields).contains id = (fields.contains id || root.contains id) := by
    simp only [Record.contains, Record.get?_merge single, Option.isSome_or]
  unfold Scopes.assign
  dsimp only
  rw [assignIn?_append]
  -- The name is in an open scope, in the record of the call, in the root, or nowhere.
  cases found : assignIn? id value inner with
  | some inner' => exact .intro ((length_of_assignIn found).trans length) single names
  | none =>
    rw [seen]
    cases own : fields.contains id with
    | true =>
      have change := Record.through_insert single id value
      have replaced : assignIn? id value [fields] = some [fields.insert id value] := by
        simp [assignIn?, own]
      rw [replaced, change.merge]
      exact .intro length change.single fun id hid => change.keys.mem (names id hid)
    | false =>
      have missed : assignIn? id value [fields] = none := by simp [assignIn?, own]
      rw [missed]
      cases outer : root.contains id with
      | true =>
        have fresh : id ∉ fields.keys := by simp [← Record.contains_iff, own]
        simp only [Record.merge_insert_of_notMem outer fresh]
        exact .intro length single names
      | false => exact written

theorem closed (h : Merged 0 held a b) : ∃ fields, a.inner = [fields] ∧ a.frames = [.empty] ∧
    b = ⟨a.root.merge fields, [], []⟩ := by
  obtain ⟨length, -, -⟩ := h
  obtain rfl := List.eq_nil_of_length_eq_zero length
  exact ⟨_, rfl, rfl, rfl⟩

end Merged

end Scopes

end ByteSchema
