import ByteSchema.Proofs.Decode.Watched

/-!
# Open regions

Regions are not clipped to the ones around them, and items may read past their ends. What holds all
the same before and after every node is `Sound`: the cursor is inside the input and past the start
of every open region. An alarm on `Sound` around every node is never heard.
-/

namespace ByteSchema

/-- The cursor and the open regions lie inside the input, and in the order of their starts. -/
structure Sound (s : State) : Prop where
  inside : s.cursor.offset ≤ s.cursor.length
  within : ∀ region ∈ s.regions, region.start ≤ region.stop ∧ region.stop ≤ s.cursor.length
  nested : s.regions.Pairwise fun inner outer => outer.start ≤ inner.start
  started : ∀ region ∈ s.regions, region.start ≤ s.cursor.offset

namespace Sound

instance (s : State) : Decidable (Sound s) :=
  decidable_of_iff (s.cursor.offset ≤ s.cursor.length ∧
      (∀ region ∈ s.regions, region.start ≤ region.stop ∧ region.stop ≤ s.cursor.length) ∧
      (s.regions.Pairwise fun inner outer => outer.start ≤ inner.start) ∧
      ∀ region ∈ s.regions, region.start ≤ s.cursor.offset)
    ⟨fun ⟨inside, within, nested, started⟩ => ⟨inside, within, nested, started⟩,
      fun ⟨inside, within, nested, started⟩ => ⟨inside, within, nested, started⟩⟩

variable {s t : State}

theorem advanced (h : Sound s) (hst : Advanced s t) : Sound t where
  inside := hst.inside
  within := by
    have length : t.cursor.length = s.cursor.length := congrArg List.length hst.data
    rw [hst.regions, length]
    exact h.within
  nested := by
    rw [hst.regions]
    exact h.nested
  started region hregion := by
    rw [hst.regions] at hregion
    exact Nat.le_trans (h.started region hregion) hst.forward

/-- A region opens at the cursor, so it starts after the ones around it. -/
theorem opened (h : Sound s) {stop : Nat} (hstart : s.cursor.offset ≤ stop)
    (hstop : stop ≤ s.cursor.length) :
    Sound { s with regions := ⟨s.cursor.offset, stop⟩ :: s.regions } where
  inside := h.inside
  within := List.forall_mem_cons.mpr ⟨⟨hstart, hstop⟩, h.within⟩
  nested := List.pairwise_cons.mpr ⟨h.started, h.nested⟩
  started := List.forall_mem_cons.mpr ⟨Nat.le_refl _, h.started⟩

theorem deeper (h : Sound s) : Sound { s with depth := s.depth + 1 } :=
  ⟨h.inside, h.within, h.nested, h.started⟩

theorem start {setting : Setting} {data : List UInt8} : Sound (Decoder.started setting data) where
  inside := Decoder.started_inside
  within := List.forall_mem_nil _
  nested := .nil
  started := List.forall_mem_nil _

end Sound

/-- The states before nodes are sound, and so are those in which one halts. -/
def Invariant.sound (setting : Setting) : Invariant setting where
  before := Sound
  halts _ := Sound
  inside h := h.inside
  advanced h := h.advanced
  opened h := h.opened
  deeper h _ := h.deeper
  halted h hst _ := h.advanced hst
  tooDeep h _ := h.deeper

namespace Watched

/-- Runs `raise` once `p` fails before or after a node, also after one that halts. -/
def alarm (p : State → Prop) [DecidablePred p] (raise : Run Unit) : Around := fun body s =>
  if p s then
    match body s with
    | .ok u t => if p t then .ok u t else raise t
    | .error halt t => if p t then .error halt t else raise t
  else raise s

theorem wraps_alarm {setting : Setting} (lost : Halt → Prop) (raise : Run Unit) :
    Wraps (Invariant.sound setting) lost (alarm Sound raise) := by
  intro body body' hkeeps h s hs
  have sound : Sound s := hs
  have hends := hkeeps s hs
  obtain same | hlost := h s hs
  · refine .inl ((if_pos sound).trans ?_)
    rw [same]
    cases hbody : body s with
    | ok u t => exact if_pos (sound.advanced (hends.of_ok hbody).toAdvanced)
    | error halt t => exact if_pos (hends.of_error hbody)
  · exact .inr hlost

end Watched

/-- Before and after every node of every decode, at any level and in any call, the state is sound:
whatever an alarm would do, it does not. (Watching alone changes nothing.) -/
theorem nodes_sound (setting : Setting) (levels : Nat) (data : List UInt8) (raise : Run Unit) :
    Watched.decodeWithin (Watched.alarm Sound raise) levels setting data =
      Decoder.decodeWithin levels setting data ∧
    Watched.decodeWithin (fun body => body) levels setting data =
      Decoder.decodeWithin levels setting data := by
  refine ⟨?_, Watched.decodeWithin_id levels setting data⟩
  exact Watched.decodeWithin_eq (Watched.wraps_alarm (fun _ => False) raise) (fun _ h => h)
    Sound.start (Nat.le_refl _) (fun h => Nat.lt_irrefl _ h) fun _ _ h => h

example : (Watched.decodeWithin (Watched.alarm (fun s => s.cursor.offset = 0) (throw .exhausted)) 1
    DecodeSample.setting [1, 2, 3]).result = .error .exhausted := rfl

end ByteSchema
