import ByteSchema.Proofs.Decode.Alignment
import ByteSchema.Proofs.Decode.Halts

/-!
# Decodes without overflow

The position that an `align` node moves to is the one number of a decode that may be too large for
a word. It never is for a small multiple, whatever the base, nor for any multiple counted from the
start of the input. So a decode overflows only where another alignment is reached.
-/

namespace ByteSchema

/-- No base of an input makes the position too large for a word. -/
def Action.staysInWords : Action → Bool
  | align _ .global => true
  | align (.uint n) _ => n.toNat < 2 ^ 63
  | align .. => false
  | _ => true

theorem Halt.failed_ne_overflow (e : Error) : Halt.failed e ≠ .overflow := by
  rintro ⟨⟩

section

variable {setting : Setting} {s : State} {term : Term} {basis : Basis} {log : Log}

theorem Measures.of_evalLength : Ends (Run.evalLength setting term) s
    (fun n t => ∃ after, t = { s with log := after } ∧ Measures setting s term s.log n after)
    fun halt _ => halt ≠ .overflow := by
  rw [Run.evalLength, ends_bind, Run.ends_eval]
  refine .intro (fun v after value => ?_) fun e _ _ => Halt.failed_ne_overflow e
  rw [Run.ends_ofExcept]
  exact ⟨fun n length => ⟨after, rfl, v, value, length⟩, fun e _ => Halt.failed_ne_overflow e⟩

theorem Bases.of_basisOffset : Ends (Action.basisOffset setting basis) { s with log := log }
    (fun base t => ∃ after, t = { s with log := after } ∧ Bases setting s basis log base after)
    fun halt _ => halt ≠ .overflow := by
  cases basis with
  | scope =>
    rw [ends_iff_of_ok (Action.basisOffset_scope _)]
    exact ⟨log, rfl, .scope⟩
  | global => exact ⟨log, rfl, .global⟩
  | term t =>
    refine (Measures.of_evalLength (s := { s with log := log })).imp_done ?_
    rintro base _ ⟨after, rfl, measured⟩
    exact ⟨after, rfl, .term measured⟩

theorem Measures.eq_of_uint {n : UInt64} {m : Nat} {after : Log} (small : n.toNat < 2 ^ 63)
    (h : Measures setting s (.uint n) log m after) : m = n.toNat := by
  obtain ⟨v, value, length⟩ := h
  cases value
  rw [Value.ofNat_of_lt small] at length
  exact Except.ok.inj (length.symm.trans (Value.toLength_ofNat small))

/-- Which of the two it is that keeps the position small. -/
theorem near_of_staysInWords {multiple : Term} {n base : Nat} {after after' : Log}
    (stays : (Action.align multiple basis).staysInWords = true)
    (step : Measures setting s multiple log n after)
    (start : Bases setting s basis after base after') : n ≤ 2 ^ 63 ∨ base = 0 := by
  unfold Action.staysInWords at stays
  split at stays
  · next h =>
    cases h
    cases start
    exact .inr rfl
  · next k _ _ h =>
    cases h
    have small := of_decide_eq_true stays
    obtain rfl := step.eq_of_uint small
    exact .inl (Nat.le_of_lt small)
  · cases stays
  · next h => exact absurd rfl (h _ _)

variable {data : List UInt8}

theorem Action.runAlign_inWords (small : data.length < 2 ^ 63) {multiple : Term}
    (stays : (Action.align multiple basis).staysInWords = true) :
    HaltsOnly (· ≠ .overflow) data (Action.runAlign setting multiple basis) := by
  intro s held
  have low : s.cursor.length < 2 ^ 63 := by
    rw [Cursor.length, held.data]
    exact small
  rw [runAlign, alignBy, ends_bind]
  refine Measures.of_evalLength.imp_done ?_
  rintro n _ ⟨after, rfl, step⟩
  split
  · exact Run.ends_fail.mpr (Halt.failed_ne_overflow _)
  · next nonzero =>
    rw [ends_bind]
    refine Bases.of_basisOffset.imp_done ?_
    rintro base _ ⟨after', rfl, start⟩
    have word : alignedTo s.cursor.offset n base < 2 ^ 64 :=
      alignedTo_lt (Nat.lt_of_le_of_lt held.inside low) (Nat.one_le_iff_ne_zero.mpr nonzero)
        step.lt (start.lt low held.started) (near_of_staysInWords stays step start)
    rw [ends_bind, Run.ends_offset, alignedWord?_of_lt word, Run.checked, pure_bind, ends_bind,
      Run.ends_cursor, Run.ends_setCursor]
    have ahead := Cursor.skipLenient_ahead (n := alignedTo s.cursor.offset n base - s.cursor.offset)
      held.inside
    exact ⟨ahead.data.trans held.data, ahead.inside, held.started⟩

theorem Halt.allowed_inWords : Halt.Allowed setting (· ≠ .overflow) where
  failed _ := Halt.failed_ne_overflow _
  term _ := Halt.failed_ne_overflow _
  exhausted := by rintro ⟨⟩

theorem Action.run_inWords (small : data.length < 2 ^ 63) {a : Action}
    (stays : a.staysInWords = true) : HaltsOnly (· ≠ .overflow) data (a.run setting) := by
  refine (HaltsOnly.compositional Halt.allowed_inWords).action a (fun _ _ _ reads => ?_)
    (fun _ _ _ _ => .mapScopes _) ?_
  · exact .read reads fun _ _ e _ => Halt.failed_ne_overflow e
  · rintro multiple basis rfl
    exact runAlign_inWords small stays

end

/-- A decode overflows only where it reaches an alignment that does not stay in words. -/
theorem Decoder.overflow_cause {setting : Setting} {levels : Nat} {data : List UInt8}
    (halted : (decodeWithin levels setting data).result = .error .overflow) :
    2 ^ 63 ≤ data.length ∨ ∃ multiple basis,
      Occurs setting.schema setting.schema.spec (.action (.align multiple basis)) ∧
        (Action.align multiple basis).staysInWords = false := by
  by_contra none
  obtain ⟨small, stay⟩ := not_or.mp none
  refine halts_fine Halt.allowed_inWords (fun a ha => ?_) halted rfl
  refine Action.run_inWords (Nat.lt_of_not_le small) ?_
  by_contra far
  cases a with
  | align multiple basis => exact stay ⟨multiple, basis, ha, Bool.eq_false_of_not_eq_true far⟩
  | _ => exact far rfl

end ByteSchema
