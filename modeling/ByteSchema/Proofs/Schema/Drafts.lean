import ByteSchema.Proofs.Decode.Ends
import ByteSchema.Proofs.Schema.Encoding
import Mathlib.Data.List.Pairwise

/-!
# Drafts are filled in any order

The members of a record are taken one after the other into a draft. Each of them fills a slot that
was empty, or changes nothing. Slots do not touch each other, so two members come to the same in
either order, `Slot.commutes`, and all members do in any order, `Commutes.foldlM_perm`.
-/

namespace ByteSchema

/-- Two steps that succeed come to the same in the other order. -/
def Commutes {ε σ α : Type} (step : σ → α → Except ε σ) : Prop :=
  ∀ a b s mid s', step s a = .ok mid → step mid b = .ok s' → (do step (← step s b) a) = .ok s'

/-- So do any number of steps in any order. -/
theorem Commutes.foldlM_perm {ε σ α : Type} {step : σ → α → Except ε σ} (commutes : Commutes step)
    {as bs : List α} (perm : as.Perm bs) {s s' : σ} (h : as.foldlM step s = .ok s') :
    bs.foldlM step s = .ok s' := by
  induction perm generalizing s with
  | nil => exact h
  | cons a _ ih =>
    rw [List.foldlM_cons] at h ⊢
    obtain ⟨next, first, rest⟩ := bind_ok h
    rw [first]
    exact ih rest
  | swap a b rest =>
    rw [List.foldlM_cons] at h ⊢
    obtain ⟨mid, first, h⟩ := bind_ok h
    rw [List.foldlM_cons] at h
    obtain ⟨next, second, h⟩ := bind_ok h
    obtain ⟨mid', first', second'⟩ := bind_ok (commutes b a s mid next first second)
    rw [first']
    show (b :: rest).foldlM step mid' = .ok s'
    rw [List.foldlM_cons, second']
    exact h
  | trans _ _ ih ih' => exact ih' (ih h)

/-! ### Slots -/

/-- A field of a draft that something is put into. -/
structure Slot (σ : Type) where
  Content : Type
  get : σ → Option Content
  set : σ → Content → σ
  get_set (s : σ) (a : Content) : get (set s a) = some a

namespace Slot

variable {ε σ α : Type} {slots : List (Slot σ)} {p q : Slot σ} {s s' : σ}

/-- Neither slot sees what is put into the other one. -/
def Apart (p q : Slot σ) : Prop :=
  (∀ s b, p.get (q.set s b) = p.get s) ∧ (∀ s a, q.get (p.set s a) = q.get s) ∧
    ∀ s a b, p.set (q.set s b) a = q.set (p.set s a) b

instance : Std.Symm (Apart : Slot σ → Slot σ → Prop) where
  symm _ _ h := ⟨h.2.1, h.1, fun s b a => (h.2.2 s a b).symm⟩

/-- Puts what is read into the slot, which has to be empty. -/
def fill (slot : Slot σ) (fault : ε) (read : Except ε slot.Content) (s : σ) : Except ε σ :=
  if (slot.get s).isSome then .error fault else do return slot.set s (← read)

theorem fill_ok {fault : ε} {read : Except ε p.Content} :
    p.fill fault read s = .ok s' ↔ p.get s = none ∧ ∃ a, read = .ok a ∧ p.set s a = s' := by
  unfold fill
  constructor
  · intro h
    split at h
    · cases h
    · next empty =>
      obtain ⟨a, hread, ⟨⟩⟩ := bind_ok h
      exact ⟨Option.not_isSome_iff_eq_none.mp empty, a, hread, rfl⟩
  · rintro ⟨empty, a, rfl, rfl⟩
    rw [empty]
    rfl

/-- The step fills one of the slots, or changes nothing where it gets through. -/
inductive Steps (slots : List (Slot σ)) (step : σ → Except ε σ) : Prop
  | fills {slot : Slot σ} (fault : ε) (read : Except ε slot.Content) : slot ∈ slots →
      (∀ s, step s = slot.fill fault read s) → Steps slots step
  | passes (check : Except ε Unit) : (∀ s, step s = do check; return s) → Steps slots step

/-- Two steps that succeed fill different slots. -/
theorem commutes {step : σ → α → Except ε σ} (apart : slots.Pairwise Apart)
    (steps : ∀ a, Steps slots fun s => step s a) : Commutes step := by
  intro a b s mid s' first second
  cases steps a with
  | passes check unchanged =>
    rw [unchanged] at first
    obtain ⟨_, passed, ⟨⟩⟩ := bind_ok first
    rw [second]
    show step s' a = _
    rw [unchanged, passed]
    rfl
  | @fills p fault read hp filled =>
    rw [filled] at first
    cases steps b with
    | passes check unchanged =>
      rw [unchanged] at second
      obtain ⟨_, passed, ⟨⟩⟩ := bind_ok second
      rw [unchanged, passed]
      show step s a = _
      rw [filled, first]
    | @fills q fault' read' hq filled' =>
      rw [filled'] at second
      obtain ⟨empty, x, hx, rfl⟩ := fill_ok.mp first
      obtain ⟨empty', y, hy, rfl⟩ := fill_ok.mp second
      have different : p ≠ q := by
        rintro rfl
        rw [p.get_set] at empty'
        cases empty'
      obtain ⟨kept, kept', swap⟩ := apart.forall hp hq different
      have early : step s b = .ok (q.set s y) := by
        rw [filled']
        exact fill_ok.mpr ⟨kept' s x ▸ empty', y, hy, rfl⟩
      rw [early]
      show step (q.set s y) a = _
      rw [filled]
      exact fill_ok.mpr ⟨(kept s y).trans empty, x, hx, swap s x y⟩

end Slot

/-! ### Members of a record -/

section Takes

variable {σ : Type} {step : σ → String × Json → Except Mismatch σ} {s mid : σ} {P Q : σ → Prop}
  {member : String × Json} {members more : List (String × Json)}

/-- The members are taken one after the other, to a draft of which `P` holds. -/
def Takes (step : σ → String × Json → Except Mismatch σ) (members : List (String × Json)) (s : σ)
    (P : σ → Prop) : Prop :=
  ∃ s', members.foldlM step s = .ok s' ∧ P s'

theorem Takes.cons (first : step s member = .ok mid) (rest : Takes step members mid P) :
    Takes step (member :: members) s P := by
  obtain ⟨s', taken, holds⟩ := rest
  refine ⟨s', ?_, holds⟩
  rw [List.foldlM_cons, first]
  exact taken

theorem Takes.append (front : Takes step members s P)
    (back : ∀ mid, P mid → Takes step more mid Q) : Takes step (members ++ more) s Q := by
  obtain ⟨mid, taken, holds⟩ := front
  obtain ⟨s', taken', holds'⟩ := back mid holds
  refine ⟨s', ?_, holds'⟩
  rw [List.foldlM_append, taken]
  exact taken'

theorem Takes.perm (h : Takes step members s P) (commutes : Commutes step)
    (perm : more.Perm members) : Takes step more s P := by
  obtain ⟨s', taken, holds⟩ := h
  exact ⟨s', commutes.foldlM_perm perm.symm taken, holds⟩

/-- A part takes one step, or none. -/
theorem Part.takes {keys : List String} {holds : Json → Prop} {blank : Prop}
    (h : Part keys holds blank members)
    (taken : ∀ key ∈ keys, ∀ j, (key, j) ∈ members → holds j →
      ∃ s', step s (key, j) = .ok s' ∧ P s')
    (left : blank → P s) : Takes step members s P := by
  cases h with
  | @written key j named held =>
    obtain ⟨s', stepped, reached⟩ := taken key named j List.mem_cons_self held
    exact .cons stepped ⟨s', rfl, reached⟩
  | omitted none => exact ⟨s, rfl, left none⟩

end Takes

end ByteSchema
