import Mathlib.Order.Bounds.Defs
import ByteSchema.Proofs.Decode.Ends
import ByteSchema.Proofs.Decode.Reads

/-!
# The end of a run at a delimiter

A run of bytes ends at a terminator or at a whole sequence, and at its limit if neither comes first.
`delimiters_found` says that the scanners find the first such place, so that no run has a delimiter
inside.
-/

namespace ByteSchema

namespace Scan

def EndsAt (terminators data : List UInt8) (i : Nat) : Prop := ∃ b ∈ terminators, data[i]? = some b

/-- The whole sequence is in the data, behind `i` bytes. -/
def StandsAt (sequence data : List UInt8) (i : Nat) : Prop :=
  ∃ front after, data = front ++ sequence ++ after ∧ front.length = i

/-- The slices of `n` bytes, from left to right. -/
def windows (n : Nat) (data : List UInt8) : List (List UInt8) :=
  (List.range (data.length + 1 - n)).map fun i => (data.drop i).take n

/-- The place of the first window that is the sequence, of those that start within the limit. -/
def firstWindow (data sequence : List UInt8) (limit : Nat) : Nat :=
  match ((windows sequence.length data).take (limit + 1)).findIdx? (· == sequence) with
  | some i => min i limit
  | none => limit

/-! ### First places -/

/-- `n` is the first place with `P`, unless the limit comes before it. -/
structure IsFirst (P : Nat → Prop) (limit n : Nat) : Prop where
  inside : n ≤ limit
  before : ∀ i < n, ¬ P i
  ended : n < limit → P n

namespace IsFirst

variable {P : Nat → Prop} {limit n m : Nat}

theorem here (h : P 0) : IsFirst P limit 0 :=
  ⟨Nat.zero_le _, fun _ hi => absurd hi (Nat.not_lt_zero _), fun _ => h⟩

theorem atLimit (h : ∀ i < limit, ¬ P i) : IsFirst P limit limit :=
  ⟨Nat.le_refl _, h, fun lt => absurd lt (Nat.lt_irrefl _)⟩

theorem succ (h : ¬ P 0) (next : IsFirst (fun i => P (i + 1)) limit n) :
    IsFirst P (limit + 1) (n + 1) := by
  refine ⟨Nat.succ_le_succ next.inside, fun i hi => ?_, fun lt => next.ended (by omega)⟩
  cases i with
  | zero => exact h
  | succ i => exact next.before i (by omega)

theorem unique (h : IsFirst P limit n) (h' : IsFirst P limit m) : n = m := by
  have below := h.inside
  have below' := h'.inside
  rcases Nat.lt_trichotomy n m with lt | same | lt
  · exact absurd (h.ended (by omega)) (h'.before n lt)
  · exact same
  · exact absurd (h'.ended (by omega)) (h.before m lt)

theorem isLeast_lt (h : IsFirst P limit n) :
    IsLeast {i | i < limit ∧ P i} n ∨ n = limit ∧ ∀ i < limit, ¬ P i := by
  rcases Nat.lt_or_eq_of_le h.inside with lt | rfl
  · left
    refine ⟨⟨lt, h.ended lt⟩, ?_⟩
    rintro i ⟨-, hi⟩
    exact Nat.le_of_not_lt fun lt => h.before i lt hi
  · exact .inr ⟨rfl, h.before⟩

theorem isLeast_le (h : IsFirst P limit n) :
    IsLeast {i | i ≤ limit ∧ P i} n ∨ n = limit ∧ ∀ i ≤ limit, ¬ P i := by
  by_cases hn : P n
  · left
    refine ⟨⟨h.inside, hn⟩, ?_⟩
    rintro i ⟨-, hi⟩
    exact Nat.le_of_not_lt fun lt => h.before i lt hi
  · right
    have whole : n = limit := by
      rcases Nat.lt_or_eq_of_le h.inside with lt | same
      · exact absurd (h.ended lt) hn
      · exact same
    subst whole
    refine ⟨rfl, fun i hi => ?_⟩
    rcases Nat.lt_or_eq_of_le hi with lt | rfl
    · exact h.before i lt
    · exact hn

end IsFirst

/-! ### Terminators -/

variable {data terminators sequence : List UInt8} {limit i : Nat}

theorem isFirst_takeWhile (h : limit ≤ data.length) : IsFirst (EndsAt terminators data) limit
    ((data.take limit).takeWhile fun b => !terminators.contains b).length := by
  induction limit generalizing data with
  | zero => exact .atLimit fun i hi => absurd hi (Nat.not_lt_zero i)
  | succ limit ih =>
    cases data with
    | nil => simp at h
    | cons b rest =>
      have next := @ih rest (by simpa using h)
      rw [List.take_succ_cons, List.takeWhile_cons]
      by_cases stops : b ∈ terminators
      · simp only [List.contains_eq_mem, stops, decide_true, Bool.not_true]
        exact .here ⟨b, stops, rfl⟩
      · simp only [List.contains_eq_mem, stops, decide_false, Bool.not_false] at next ⊢
        refine .succ ?_ next
        rintro ⟨b', member, head⟩
        cases head
        exact stops member

theorem isFirst_untilAny (data terminators : List UInt8) (max : Option Nat) :
    IsFirst (EndsAt terminators data) (Scan.limit data max) (untilAny data terminators max) :=
  isFirst_takeWhile (limit_le data max)

theorem notMem_take (h : ∀ i < limit, ¬ EndsAt terminators data i) :
    ∀ b ∈ data.take limit, b ∉ terminators := by
  intro b hb member
  obtain ⟨i, hi, rfl⟩ := List.mem_take_iff_getElem.mp hb
  exact h i (by omega) ⟨_, member, List.getElem?_eq_getElem _⟩

/-! ### Sequences -/

theorem standsAt_zero : StandsAt sequence data 0 ↔ sequence <+: data := by
  constructor
  · rintro ⟨front, after, rfl, empty⟩
    rw [List.eq_nil_of_length_eq_zero empty]
    exact List.prefix_append _ _
  · rintro ⟨after, rfl⟩
    exact ⟨[], after, rfl, rfl⟩

theorem standsAt_succ {b : UInt8} :
    StandsAt sequence (b :: data) (i + 1) ↔ StandsAt sequence data i := by
  constructor
  · rintro ⟨front, after, split, length⟩
    cases front with
    | nil => simp at length
    | cons c front =>
      simp only [List.cons_append, List.cons.injEq] at split
      exact ⟨front, after, split.2, by simpa using length⟩
  · rintro ⟨front, after, rfl, rfl⟩
    exact ⟨b :: front, after, rfl, rfl⟩

theorem not_standsAt_nil (h : sequence ≠ []) : ¬ StandsAt sequence [] i := by
  rintro ⟨front, after, split, -⟩
  simp at split
  exact h split.2.1

theorem isFirst_find (h : sequence ≠ []) (data : List UInt8) (limit : Nat) :
    IsFirst (StandsAt sequence data) limit (find sequence data limit) := by
  induction limit generalizing data with
  | zero =>
    rw [find]
    exact .atLimit fun i hi => absurd hi (Nat.not_lt_zero i)
  | succ limit ih =>
    unfold find
    split
    · next front => exact .here (standsAt_zero.mpr (List.isPrefixOf_iff_prefix.mp front))
    · next other =>
      cases data with
      | nil => exact .atLimit fun _ _ => not_standsAt_nil h
      | cons b rest =>
        refine .succ (fun front => other ?_) ?_
        · exact List.isPrefixOf_iff_prefix.mpr (standsAt_zero.mp front)
        · simp only [standsAt_succ]
          exact ih rest

theorem isFirst_untilSequence (h : sequence ≠ []) (data : List UInt8) (max : Option Nat) :
    IsFirst (StandsAt sequence data) (Scan.limit data max) (untilSequence data sequence max) := by
  rw [untilSequence, if_neg (by simpa using h)]
  exact isFirst_find h data _

/-! ### Windows -/

theorem windows_eq_some {n : Nat} {window : List UInt8} : (windows n data)[i]? = some window ↔
    i < data.length + 1 - n ∧ (data.drop i).take n = window := by
  rw [windows, List.getElem?_map, Option.map_eq_some_iff]
  constructor
  · rintro ⟨j, hj, rfl⟩
    rw [List.getElem?_eq_some_iff] at hj
    obtain ⟨inside, rfl⟩ := hj
    rw [List.length_range] at inside
    simp [inside]
  · rintro ⟨inside, rfl⟩
    exact ⟨i, List.getElem?_range inside, rfl⟩

theorem standsAt_iff (h : sequence ≠ []) :
    StandsAt sequence data i ↔ (windows sequence.length data)[i]? = some sequence := by
  rw [windows_eq_some]
  constructor
  · rintro ⟨front, after, rfl, rfl⟩
    refine ⟨?_, ?_⟩
    · simp only [List.length_append]
      omega
    · rw [List.append_assoc, List.drop_left, List.take_left]
  · rintro ⟨inside, window⟩
    have pos : 0 < sequence.length := List.length_pos_iff.mpr h
    have split : data.take i ++ ((data.drop i).take sequence.length ++
        (data.drop i).drop sequence.length) = data := by
      rw [List.take_append_drop, List.take_append_drop]
    rw [window, ← List.append_assoc] at split
    exact ⟨_, _, split.symm, by rw [List.length_take]; omega⟩

theorem isFirst_firstWindow (h : sequence ≠ []) (data : List UInt8) (limit : Nat) :
    IsFirst (StandsAt sequence data) limit (firstWindow data sequence limit) := by
  have stands (i : Nat) (hi : i ≤ limit) : StandsAt sequence data i ↔
      ((windows sequence.length data).take (limit + 1))[i]? = some sequence := by
    rw [standsAt_iff h, List.getElem?_take, if_pos (Nat.lt_succ_of_le hi)]
  unfold firstWindow
  split
  · next place found =>
    obtain ⟨inside, same, first⟩ := List.findIdx?_eq_some_iff_getElem.mp found
    have within : place ≤ limit := by
      rw [List.length_take] at inside
      omega
    rw [Nat.min_eq_left within]
    refine ⟨within, fun i hi standing => ?_, fun _ => ?_⟩
    · obtain ⟨_, window⟩ := List.getElem?_eq_some_iff.mp ((stands i (by omega)).mp standing)
      exact first i hi (by simpa using window)
    · exact (stands place within).mpr (List.getElem?_eq_some_iff.mpr ⟨inside, by simpa using same⟩)
  · next none =>
    refine .atLimit fun i hi standing => ?_
    have window := List.mem_of_getElem? ((stands i (by omega)).mp standing)
    simpa using List.findIdx?_eq_none_iff.mp none _ window

end Scan

open Scan

section

variable {setting : Setting} {length : Option Term} {s : State} {max : Option Nat} {log : Log}

theorem Action.asciiUntil_run (id : String) (terminators : List UInt8)
    (h : Run.evalLimit setting length s = .ok max { s with log := log }) :
    let n := untilAny s.cursor.rest terminators max
    (Action.asciiUntil id terminators length).run setting s = .ok () { s with
      cursor := s.cursor.advance n
      scopes := s.scopes.write id (.text (Value.latin1 (s.cursor.rest.take n)))
      log := log } := by
  have fits := untilAny_le s.cursor.rest terminators max
  rw [Cursor.length_rest] at fits
  rw [Action.run, bind_of_ok h]
  exact readRun_of_ok id (asciiField_eq fits)

theorem Action.bytesUntil_run (id : String) (sequence : List UInt8)
    (h : Run.evalLimit setting length s = .ok max { s with log := log }) :
    let n := untilSequence s.cursor.rest sequence max
    (Action.bytesUntil id sequence length).run setting s = .ok () { s with
      cursor := s.cursor.advance n
      scopes := s.scopes.write id (.bytes (s.cursor.rest.take n))
      log := log } := by
  have fits := untilSequence_le s.cursor.rest sequence max
  rw [Cursor.length_rest] at fits
  rw [Action.run, bind_of_ok h]
  exact readRun_of_ok id (bytesField_eq fits)

end

/-- Of the places below the limit, the run up to a terminator ends at the least that has one, and
else at the limit; the run up to a sequence ends at the least place, the limit included, where the
whole sequence stands, and else at the limit. So the run has no delimiter in it, and one behind it
if it is shorter than the limit. The nodes read these runs. -/
theorem delimiters_found (data : List UInt8) (max : Option Nat) :
    let limit := max.elim data.length fun n => min n data.length
    (∀ terminators : List UInt8,
      let n := untilAny data terminators max
      (IsLeast {i | i < limit ∧ EndsAt terminators data i} n ∨
        n = limit ∧ ∀ i < limit, ¬ EndsAt terminators data i) ∧
      (∀ b ∈ data.take n, b ∉ terminators) ∧ (n < limit → EndsAt terminators data n)) ∧
    (∀ sequence : List UInt8, sequence ≠ [] →
      let n := untilSequence data sequence max
      (IsLeast {i | i ≤ limit ∧ StandsAt sequence data i} n ∨
        n = limit ∧ ∀ i ≤ limit, ¬ StandsAt sequence data i) ∧
      (∀ i < n, ¬ StandsAt sequence data i) ∧ (n < limit → StandsAt sequence data n) ∧
      n = firstWindow data sequence limit) ∧
    ∀ (setting : Setting) (id : String) (length : Option Term) (s : State) (log : Log),
      s.cursor.rest = data → Run.evalLimit setting length s = .ok max { s with log := log } →
      (∀ terminators, let n := untilAny data terminators max
        (Action.asciiUntil id terminators length).run setting s = .ok () { s with
          cursor := s.cursor.advance n
          scopes := s.scopes.write id (.text (Value.latin1 (data.take n)))
          log := log }) ∧
      ∀ sequence, let n := untilSequence data sequence max
        (Action.bytesUntil id sequence length).run setting s = .ok () { s with
          cursor := s.cursor.advance n
          scopes := s.scopes.write id (.bytes (data.take n))
          log := log } := by
  have bound : (max.elim data.length fun n => min n data.length) = limit data max := by
    cases max <;> rfl
  rw [bound]
  refine ⟨fun terminators => ?_, fun sequence present => ?_, ?_⟩
  · have first := isFirst_untilAny data terminators max
    exact ⟨first.isLeast_lt, notMem_take first.before, first.ended⟩
  · have first := isFirst_untilSequence present data max
    exact ⟨first.isLeast_le, first.before, first.ended,
      first.unique (isFirst_firstWindow present data _)⟩
  · rintro setting id length s log rfl evaluated
    exact ⟨fun terminators => Action.asciiUntil_run id terminators evaluated,
      fun sequence => Action.bytesUntil_run id sequence evaluated⟩

namespace DecodeSample

/-- Reads letters up to `abc`, but two of them at most. -/
def lettered : Setting where
  schema := {
    byteOrder := .big
    templates := []
    spec := [.action (.bytesUntil "run" [0x61, 0x62, 0x63] (some (.uint 2)))] }
  config := .default
  functions := []

def letters : State where
  cursor := .start [0x61, 0x62, 0x61, 0x62, 0x63] .big
  scopes := .empty
  regions := []
  depth := 1
  log := []

end DecodeSample

open DecodeSample in
/-- The sequence may start at the limit and go past it. -/
theorem delimiters_found_straddling :
    IsLeast {i | i ≤ 2 ∧ StandsAt [0x61, 0x62, 0x63] letters.cursor.rest i} 2 ∧
    (Action.bytesUntil "run" [0x61, 0x62, 0x63] (some (.uint 2))).run lettered letters = .ok ()
      { letters with
        cursor := letters.cursor.advance 2
        scopes := letters.scopes.write "run" (.bytes [0x61, 0x62]) } := by
  obtain ⟨-, sequences, nodes⟩ := delimiters_found letters.cursor.rest (some 2)
  have stands : StandsAt [0x61, 0x62, 0x63] letters.cursor.rest 2 := ⟨[0x61, 0x62], [], rfl, rfl⟩
  refine ⟨?_, (nodes lettered "run" (some (.uint 2)) letters [] rfl rfl).2 [0x61, 0x62, 0x63]⟩
  exact (sequences [0x61, 0x62, 0x63] (by decide)).1.resolve_right fun h => h.2 2 (by decide) stands

end ByteSchema
