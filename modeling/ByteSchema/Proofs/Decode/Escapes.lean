import ByteSchema.Proofs.Decode.Ends
import ByteSchema.Proofs.Decode.Reads

/-!
# The end of a run with escapes

A marker ends a run of bytes unless it is the first half of an escape. `markers_found` says that the
scanner finds the one place where the run can end, and stops behind a payload in which every marker
was followed by an escape.
-/

namespace ByteSchema

namespace Scan

/-- The bytes that make an escape of the marker before them. -/
def Passing (values : List UInt8) (ranges : List (UInt8 × UInt8)) (b : UInt8) : Prop :=
  b ∈ values ∨ ∃ low high, (low, high) ∈ ranges ∧ low ≤ b ∧ b ≤ high

theorem passes_iff {values : List UInt8} {ranges : List (UInt8 × UInt8)} {b : UInt8} :
    passes values ranges b = true ↔ Passing values ranges b := by
  simp [passes, Passing]

instance {values : List UInt8} {ranges : List (UInt8 × UInt8)} :
    DecidablePred (Passing values ranges) :=
  fun _ => decidable_of_iff _ passes_iff

/-- Bytes other than the marker, and escapes: the marker and a byte with `P`. -/
inductive Units (marker : UInt8) (P : UInt8 → Prop) : List UInt8 → Prop
  | nil : Units marker P []
  | plain {b : UInt8} {rest : List UInt8} :
    b ≠ marker → Units marker P rest → Units marker P (b :: rest)
  | escape {b : UInt8} {rest : List UInt8} :
    P b → Units marker P rest → Units marker P (marker :: b :: rest)

/-- The first `n` bytes are units, and what stands behind them is not the start of one. -/
structure IsEnd (marker : UInt8) (P : UInt8 → Prop) (data : List UInt8) (n : Nat) : Prop where
  inside : n ≤ data.length
  units : Units marker P (data.take n)
  ended : n = data.length ∨ data[n]? = some marker ∧ ∀ b, data[n + 1]? = some b → ¬ P b

/-- The payload with `escape` behind every marker. -/
def stuff (marker escape : UInt8) (payload : List UInt8) : List UInt8 :=
  payload.flatMap fun b => if b = marker then [marker, escape] else [b]

section

variable {marker : UInt8} {P : UInt8 → Prop} {escapes : UInt8 → Bool}

theorem untilMarker_plain {b : UInt8} (h : b ≠ marker) (rest : List UInt8) :
    untilMarker marker escapes (b :: rest) = untilMarker marker escapes rest + 1 := by
  cases rest <;> simp [untilMarker, h]

theorem untilMarker_escape {b : UInt8} (h : escapes b = true) (rest : List UInt8) :
    untilMarker marker escapes (marker :: b :: rest) = untilMarker marker escapes rest + 2 := by
  simp [untilMarker, h]

theorem untilMarker_units (iff : ∀ b, escapes b = true ↔ P b) {run : List UInt8}
    (h : Units marker P run) (rest : List UInt8) :
    untilMarker marker escapes (run ++ rest) = untilMarker marker escapes rest + run.length := by
  induction h with
  | nil => rfl
  | plain other _ ih =>
    rw [List.cons_append, untilMarker_plain other, ih]
    rfl
  | escape passed _ ih =>
    rw [List.cons_append, List.cons_append, untilMarker_escape ((iff _).mpr passed), ih]
    rfl

theorem untilMarker_ended (iff : ∀ b, escapes b = true ↔ P b) {data : List UInt8}
    (h : data = [] ∨ data[0]? = some marker ∧ ∀ b, data[1]? = some b → ¬ P b) :
    untilMarker marker escapes data = 0 := by
  obtain rfl | ⟨first, second⟩ := h
  · rfl
  match data, first with
  | [_], rfl => simp [untilMarker]
  | _ :: next :: rest, rfl =>
    have stops : ¬ escapes next = true := fun passed => second next rfl ((iff next).mp passed)
    simp [untilMarker, stops]

/-- No other place is an end: up to there the scanner goes unit by unit, and no further. -/
theorem IsEnd.eq_untilMarker (iff : ∀ b, escapes b = true ↔ P b) {data : List UInt8} {n : Nat}
    (h : IsEnd marker P data n) : n = untilMarker marker escapes data := by
  obtain ⟨inside, units, ended⟩ := h
  have behind : untilMarker marker escapes (data.drop n) = 0 := by
    refine untilMarker_ended iff ?_
    rw [List.getElem?_drop, List.getElem?_drop]
    exact ended.imp_left fun whole => by rw [whole, List.drop_length]
  have whole := untilMarker_units iff units (data.drop n)
  rw [List.take_append_drop, behind, Nat.zero_add, List.length_take, Nat.min_eq_left inside] at whole
  exact whole.symm

theorem IsEnd.plain {b : UInt8} {rest : List UInt8} {n : Nat} (other : b ≠ marker)
    (h : IsEnd marker P rest n) : IsEnd marker P (b :: rest) (n + 1) :=
  ⟨Nat.succ_le_succ h.inside, .plain other h.units, h.ended.imp_left (congrArg (· + 1))⟩

theorem IsEnd.escape {b : UInt8} {rest : List UInt8} {n : Nat} (passed : P b)
    (h : IsEnd marker P rest n) : IsEnd marker P (marker :: b :: rest) (n + 2) :=
  ⟨Nat.add_le_add_right h.inside 2, .escape passed h.units, h.ended.imp_left (congrArg (· + 2))⟩

theorem IsEnd.here {rest : List UInt8} (h : ∀ b, rest[0]? = some b → ¬ P b) :
    IsEnd marker P (marker :: rest) 0 :=
  ⟨Nat.zero_le _, .nil, .inr ⟨rfl, h⟩⟩

theorem isEnd_untilMarker (iff : ∀ b, escapes b = true ↔ P b) (data : List UInt8) :
    IsEnd marker P data (untilMarker marker escapes data) := by
  fun_induction untilMarker marker escapes data with
  | case1 => exact ⟨Nat.le_refl 0, .nil, .inl rfl⟩
  | case2 =>
    refine .here fun b none => ?_
    cases none
  | case3 b other => exact .plain other ⟨Nat.le_refl 0, .nil, .inl rfl⟩
  | case4 next rest passed ih => exact ih.escape ((iff next).mp passed)
  | case5 next rest stops =>
    refine .here fun b first passed => stops ?_
    cases first
    exact (iff next).mpr passed
  | case6 b next rest other ih => exact ih.plain other

theorem units_stuff {escape : UInt8} (passed : P escape) (payload : List UInt8) :
    Units marker P (stuff marker escape payload) := by
  induction payload with
  | nil => exact .nil
  | cons b payload ih =>
    rw [stuff, List.flatMap_cons]
    split
    · exact .escape passed ih
    · next other => exact .plain other ih

end

end Scan

open Scan

theorem Action.bytesUntilMarker_run (setting : Setting) (id : String) (marker : UInt8)
    (values : List UInt8) (ranges : List (UInt8 × UInt8)) (s : State) :
    let n := untilMarker marker (passes values ranges) s.cursor.rest
    (Action.bytesUntilMarker id marker values ranges).run setting s = .ok () { s with
      cursor := s.cursor.advance n
      scopes := s.scopes.write id (.bytes (s.cursor.rest.take n)) } := by
  have fits := untilMarker_le marker (passes values ranges) s.cursor.rest
  rw [Cursor.length_rest] at fits
  exact readRun_of_ok id (bytesField_eq fits)

/-- The scanner finds the only end of the run, so it stops behind a stuffed payload, and the node
reads the bytes up to there whatever they are. -/
theorem markers_found (marker : UInt8) (values : List UInt8) (ranges : List (UInt8 × UInt8)) :
    (∀ data n, IsEnd marker (Passing values ranges) data n ↔
      n = untilMarker marker (passes values ranges) data) ∧
    (∀ (payload tail : List UInt8) (e m : UInt8), Passing values ranges e →
      ¬ Passing values ranges m →
      untilMarker marker (passes values ranges) (stuff marker e payload ++ [marker, m] ++ tail) =
        (stuff marker e payload).length) ∧
    ∀ (setting : Setting) (id : String) (s : State),
      let n := untilMarker marker (passes values ranges) s.cursor.rest
      (Action.bytesUntilMarker id marker values ranges).run setting s = .ok () { s with
        cursor := s.cursor.advance n
        scopes := s.scopes.write id (.bytes (s.cursor.rest.take n)) } := by
  refine ⟨fun data n => ⟨fun h => h.eq_untilMarker fun _ => passes_iff, ?_⟩, ?_,
    fun setting id s => Action.bytesUntilMarker_run setting id marker values ranges s⟩
  · rintro rfl
    exact isEnd_untilMarker (fun _ => passes_iff) data
  · intro payload tail e m passed stops
    have units : Units marker (Passing values ranges) (stuff marker e payload) :=
      units_stuff passed payload
    have ended : untilMarker marker (passes values ranges) (marker :: m :: tail) = 0 := by
      refine untilMarker_ended (fun _ => passes_iff) (.inr ⟨rfl, fun b second => ?_⟩)
      cases second
      exact stops
    rw [List.append_assoc, untilMarker_units (fun _ => passes_iff) units]
    exact (congrArg (· + _) ended).trans (Nat.zero_add _)

/-- A marker that is its own escape: only the last of five in a row is not the half of one. -/
theorem markers_found_doubled :
    stuff 0xff 0xff [0xff, 0x01, 0xff, 0xff] = [0xff, 0xff, 0x01, 0xff, 0xff, 0xff, 0xff] ∧
    untilMarker 0xff (passes [0xff] [(0xd0, 0xd7)])
      (stuff 0xff 0xff [0xff, 0x01, 0xff, 0xff] ++ [0xff, 0xd9] ++ [0xff, 0xff]) = 7 := by
  have stopped := (markers_found 0xff [0xff] [(0xd0, 0xd7)]).2.1
  exact ⟨by decide, stopped [0xff, 0x01, 0xff, 0xff] [0xff, 0xff] 0xff 0xd9 (by decide) (by decide)⟩

end ByteSchema
