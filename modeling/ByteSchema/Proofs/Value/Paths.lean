import ByteSchema.Proofs.Text.Split
import ByteSchema.Value.Path

/-!
# Paths are names put together

A dot between two paths makes one path of them, which leads where the second one leads from the end
of the first. Nothing is asked of the parts: an empty one is the empty name. So a record is searched
for the first name alone or looked up with the path as a whole, to the same effect: `paths_compose`.
-/

namespace ByteSchema

namespace Path

theorem segments_append (before after : String) :
    segments (before ++ "." ++ after) = segments before ++ segments after :=
  Text.map_splitOn_append before after

theorem segments_of_notMem {name : String} (h : '.' ∉ name.toList) : segments name = [name] :=
  Text.map_splitOn_of_notMem h

/-- The first name, and the names of the rest. -/
theorem segments_eq_cons (path : String) :
    segments path = String.ofList (Text.splitOnce '.' path.toList).1 ::
      ((Text.splitOnce '.' path.toList).2.map fun rest => segments (String.ofList rest)).getD [] := by
  rw [segments, Text.splitOn_eq_cons, List.map_cons]
  cases (Text.splitOnce '.' path.toList).2 with
  | none => rfl
  | some rest =>
    show _ :: (Text.splitOn '.' rest).map String.ofList = _ :: segments (String.ofList rest)
    rw [segments, String.toList_ofList]

theorem segments_intercalate (first : String) {rest : List String}
    (dotless : ∀ name ∈ first :: rest, '.' ∉ name.toList) :
    segments (".".intercalate (first :: rest)) = first :: rest := by
  induction rest generalizing first with
  | nil =>
    rw [String.intercalate_singleton]
    exact segments_of_notMem (dotless first List.mem_cons_self)
  | cons next rest ih =>
    obtain ⟨plain, dotless⟩ := List.forall_mem_cons.mp dotless
    rw [String.intercalate_cons_cons, segments_append, segments_of_notMem plain, ih next dotless]
    rfl

end Path

namespace Value

theorem follow_append (v : Value) (names more : List String) :
    v.follow (names ++ more) = (v.follow names).bind fun w => w.follow more := by
  induction names generalizing v with
  | nil => rfl
  | cons name rest ih =>
    rw [List.cons_append, follow, follow]
    cases v.child name with
    | none => rfl
    | some w => exact ih w

theorem getPath_append (v : Value) (p q : String) :
    v.getPath (p ++ "." ++ q) = (v.getPath p).bind fun w => w.getPath q := by
  rw [getPath, Path.segments_append, follow_append]
  rfl

theorem getPath_of_notMem (v : Value) {name : String} (h : '.' ∉ name.toList) :
    v.getPath name = v.child name := by
  rw [getPath, Path.segments_of_notMem h, follow]
  cases v.child name <;> rfl

end Value

theorem Record.getPath_eq (r : Record) (path : String) :
    r.getPath path = (Value.record r).getPath path := by
  rw [Value.getPath, Path.segments_eq_cons, Value.follow, Record.getPath]
  generalize Text.splitOnce '.' path.toList = parts
  obtain ⟨head, rest⟩ := parts
  have field : (Value.record r).child (String.ofList head) = r.get? (String.ofList head) := rfl
  dsimp only
  rw [field]
  cases r.get? (String.ofList head) with
  | none => rfl
  | some v => cases rest <;> rfl

/-- The path of two leads where the second leads from the end of the first, and nowhere if one of
them does; a path of one name leads to what the name selects. A lookup in a record that cuts off the
first name leads there too. -/
theorem paths_compose :
    (∀ (v : Value) (p q : String),
      v.getPath (p ++ "." ++ q) = (v.getPath p).bind fun w => w.getPath q) ∧
    (∀ (v : Value) (name : String), '.' ∉ name.toList → v.getPath name = v.child name) ∧
    ∀ (r : Record) (p : String), r.getPath p = (Value.record r).getPath p :=
  ⟨Value.getPath_append, fun v _ dotless => v.getPath_of_notMem dotless, Record.getPath_eq⟩

namespace ValueSample

def row : Value := .record [("length", .text "xyz"), ("", .bytes [7, 255])]

def shelf : Record := [("rows", .list [row, .int 4])]

end ValueSample

open ValueSample in
/-- The name `length` stands for a field where there is one, and for the length of the text in it. -/
theorem paths_compose_shelf :
    '.' ∉ "length".toList ∧ shelf.getPath "rows.0.length" = some (.text "xyz") ∧
    shelf.getPath "rows.0.length.length" = some (.int 3) ∧
    shelf.getPath "rows.0..1" = some (.int 255) := by
  obtain ⟨joined, name, same⟩ := paths_compose
  have dotless : '.' ∉ "length".toList := by decide
  have field : (Value.record shelf).getPath "rows.0.length" = some (.text "xyz") :=
    (joined (.record shelf) "rows.0" "length").trans (name row "length" dotless)
  have count : (Value.record shelf).getPath "rows.0.length.length" = some (.int 3) := by
    refine (joined (.record shelf) "rows.0.length" "length").trans ?_
    rw [field]
    exact name (.text "xyz") "length" dotless
  have unnamed : (Value.record shelf).getPath "rows.0..1" = some (.int 255) :=
    joined (.record shelf) "rows.0" ".1"
  exact ⟨dotless, (same shelf _).trans field, (same shelf _).trans count,
    (same shelf _).trans unnamed⟩

end ByteSchema
