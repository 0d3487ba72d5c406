import ByteSchema.Proofs.Decode.Frame

/-!
# Blocks that set nothing

Only `set` writes to a record other than the target. Lists, regions and calls open scopes and then
write to the target that they find after closing them, which is the one from before. So a block
without `set` changes nothing but the target, and that only by new names and new values.
-/

namespace ByteSchema

namespace Scopes

variable {s t u : Scopes}

/-- `t` is `s` with another target, which has the names of the old one in front. -/
structure Confined (s t : Scopes) : Prop where
  others : t = s.mapTarget fun _ => t.target
  keys : s.target.keys <+: t.target.keys

theorem mapTarget_self (s : Scopes) : (s.mapTarget fun _ => s.target) = s := by
  obtain ⟨root, inner, frames⟩ := s
  cases inner <;> rfl

theorem mapTarget_mapTarget (s : Scopes) (f g : Record → Record) :
    (s.mapTarget f).mapTarget g = s.mapTarget fun r => g (f r) := by
  obtain ⟨root, inner, frames⟩ := s
  cases inner <;> rfl

/-- The only record that a scope opened on `s` adds is the target, so closing it gives `s` back. -/
theorem eq_of_pop {r target : Record} (h : (s.push.mapTarget fun _ => target).pop? = some (r, t)) :
    t = s := by
  cases h
  rfl

theorem eq_of_popFrame {frame : Record} (h : (s.pushFrame frame).popFrame? = some t) : t = s := by
  cases h
  rfl

namespace Confined

theorem refl (s : Scopes) : Confined s s := ⟨s.mapTarget_self.symm, List.prefix_rfl⟩

theorem trans (hst : Confined s t) (htu : Confined t u) : Confined s u where
  others := by
    have others := htu.others
    rw [hst.others, mapTarget_mapTarget] at others
    exact others
  keys := hst.keys.trans htu.keys

theorem of_mapTarget {f : Record → Record} (hf : s.target.keys <+: (f s.target).keys) :
    Confined s (s.mapTarget f) where
  others := by
    obtain ⟨root, inner, frames⟩ := s
    cases inner <;> rfl
  keys := by
    rw [target_mapTarget]
    exact hf

theorem popScope {r : Record} (hst : Confined s.push t) (hpop : t.pop? = some (r, u)) :
    u = s := by
  rw [hst.others] at hpop
  exact eq_of_pop hpop

/-- Seen from the records around the target, nothing has happened. -/
theorem around (h : Confined s t) : t.inner.length = s.inner.length ∧
    t.inner.tail = s.inner.tail ∧ (s.inner ≠ [] → t.root = s.root) ∧ t.frames = s.frames := by
  have others := h.others
  generalize t.target = r at others
  subst others
  obtain ⟨root, inner, frames⟩ := s
  cases inner with
  | nil => exact ⟨rfl, rfl, fun inner => absurd rfl inner, rfl⟩
  | cons target rest => exact ⟨rfl, rfl, fun _ => rfl, rfl⟩

end Confined

end Scopes

/-- The target alone changes, and keeps its names in their places, when nothing is set. -/
def Frame.confined : Frame where
  allowed _ := False
  rel := Scopes.Confined
  refl := .refl
  trans := .trans
  write s id value := .of_mapTarget (s.target.keys_insert id value)
  merge s fields := .of_mapTarget (s.target.keys_merge fields)
  pushItem s id item := .of_mapTarget (s.target.keys_pushItem id item)
  assign _ _ _ := False.elim
  popScope hst hpop := by
    rw [hst.popScope hpop]
    exact .refl _
  popFrame hst hpop hframe := by
    rw [hst.popScope hpop] at hframe
    rw [Scopes.eq_of_popFrame hframe]
    exact .refl _

/-- A block that comes to no `set` leaves all records but its target as they were: the other open
scopes, the arguments of all calls, and the root unless it is the target. In the target every field
that was there keeps its place, and new ones come behind. -/
theorem unset_block_confined (setting : Setting) (levels : Nat) (nodes : List Node) (s t : State)
    (unset : ∀ id value, ¬ Occurs setting.schema nodes (.action (.set id value)))
    (hrun : Block.run setting (Block.callWithin setting levels) nodes s = .ok () t) :
    t.scopes.inner.length = s.scopes.inner.length ∧
      t.scopes.inner.tail = s.scopes.inner.tail ∧
      (s.scopes.inner ≠ [] → t.scopes.root = s.scopes.root) ∧
      t.scopes.frames = s.scopes.frames ∧
      s.scopes.target.keys <+: t.scopes.target.keys := by
  have frames : Frames .confined (Block.run setting (Block.callWithin setting levels) nodes) :=
    Block.run_callWithin_frames levels unset
  have confined : s.scopes.Confined t.scopes := (frames s).of_ok hrun
  obtain ⟨height, outer, root, arguments⟩ := confined.around
  exact ⟨height, outer, root, arguments, confined.keys⟩

namespace DecodeSample

/-- Writes `x` at every depth: in a call, in a list inside it, and in a region inside that. -/
def walled : Setting where
  schema := {
    byteOrder := .big
    templates := [("deep", ⟨["n"], [
      .action (.uint "x" (.uint 1)),
      .list "rows" [.bounded "x" (.ref "n") [.action (.uint "x" (.uint 1))]]
        (some (.uint 2)) none none none]⟩)]
    spec := [.template "deep" (.positional [.uint 1]), .action (.bind "y" (.ref "x"))] }
  config := .default
  functions := []

/-- A state in a scope inside another one, in a call, with fields everywhere. -/
def amid : State where
  cursor := ⟨[9, 1, 2, 3, 4], 1, .big⟩
  scopes := ⟨[("x", .int 1)], [[("a", .int 2), ("x", .int 3)], [("x", .int 4)]], [[("x", .int 5)]]⟩
  regions := []
  depth := 0
  log := []

end DecodeSample

open DecodeSample in
theorem unset_block_confined_walled :
    ∃ t, Block.run walled (Block.callWithin walled 1) walled.schema.spec amid = .ok () t ∧
      t.scopes.inner.tail = [[("x", .int 4)]] ∧ t.scopes.root = [("x", .int 1)] ∧
      t.scopes.frames = [[("x", .int 5)]] ∧ ["a", "x"] <+: t.scopes.target.keys := by
  have unset : ∀ id value, ¬ Occurs walled.schema walled.schema.spec (.action (.set id value)) := by
    intro id value hset
    have listed := hset.mem_nodes
    simp [walled, Schema.nodes, Node.nested, Node.nestedAll] at listed
  obtain ⟨_, t, ht⟩ : ∃ a t, Block.run walled (Block.callWithin walled 1) walled.schema.spec amid =
    .ok a t := exists_of_succeeds (by decide +kernel)
  obtain ⟨-, outer, root, arguments, keys⟩ :=
    unset_block_confined walled 1 walled.schema.spec amid t unset ht
  exact ⟨t, ht, outer, root (by simp [amid]), arguments, keys⟩

end ByteSchema
