import ByteSchema.Decode.Decoder
import ByteSchema.Proofs.Decode.Follows
import ByteSchema.Proofs.Value.Words
import Mathlib.Algebra.Order.Ring.Nat
import Mathlib.Order.Bounds.Basic

/-!
# Alignment

A node of kind `align` moves to the first position that is neither behind the cursor nor before the
base, and a whole number of multiples past the base: `align_moves`. It may be that the first such
position is `2 ^ 64` or more, and no word holds it. Then the node halts, and `align_words` says when
that is.
-/

namespace ByteSchema

namespace Action

/-! ### The position -/

/-- The positions from `offset` on that are a whole number of multiples past `base`. -/
def stops (offset multiple base : Nat) : Set Nat :=
  {p | offset ≤ p ∧ base ≤ p ∧ multiple ∣ p - base}

variable {offset multiple base : Nat}

theorem le_roundUp_lt (distance : Nat) (positive : 1 ≤ multiple) :
    distance ≤ (distance + (multiple - 1)) / multiple * multiple ∧
      (distance + (multiple - 1)) / multiple * multiple < distance + multiple := by
  have whole := Nat.div_add_mod' (distance + (multiple - 1)) multiple
  have rest := Nat.mod_lt (distance + (multiple - 1)) positive
  omega

theorem mem_stops_iff {p : Nat} :
    p ∈ stops offset multiple base ↔ offset ≤ p ∧ ∃ k, p = base + k * multiple := by
  refine and_congr_right fun _ => ⟨?_, ?_⟩
  · rintro ⟨before, k, hk⟩
    exact ⟨k, by rw [Nat.mul_comm, ← hk, Nat.add_sub_cancel' before]⟩
  · rintro ⟨k, rfl⟩
    exact ⟨Nat.le_add_right _ _, by rw [Nat.add_sub_cancel_left]; exact Nat.dvd_mul_left _ _⟩

theorem alignedTo_mem (positive : 1 ≤ multiple) :
    alignedTo offset multiple base ∈ stops offset multiple base := by
  unfold alignedTo
  split
  · next ahead => exact mem_stops_iff.mpr ⟨ahead, 0, by rw [Nat.zero_mul, Nat.add_zero]⟩
  · have := le_roundUp_lt (offset - base) positive
    exact mem_stops_iff.mpr ⟨by omega, _, rfl⟩

theorem alignedTo_le (positive : 1 ≤ multiple) {p : Nat} (h : p ∈ stops offset multiple base) :
    alignedTo offset multiple base ≤ p := by
  obtain ⟨behind, k, rfl⟩ := mem_stops_iff.mp h
  unfold alignedTo
  split
  · exact Nat.le_add_right _ _
  · have below := (le_roundUp_lt (offset - base) positive).2
    have count : (offset - base + (multiple - 1)) / multiple < k + 1 := by
      refine Nat.lt_of_mul_lt_mul_right (a := multiple) ?_
      rw [Nat.succ_mul]
      omega
    exact Nat.add_le_add_left (Nat.mul_le_mul_right _ (Nat.le_of_lt_succ count)) _

theorem alignedTo_isLeast (positive : 1 ≤ multiple) :
    IsLeast (stops offset multiple base) (alignedTo offset multiple base) :=
  ⟨alignedTo_mem positive, fun _ => alignedTo_le positive⟩

/-- On the way to the position it stays the first one. -/
theorem alignedTo_between (positive : 1 ≤ multiple) {q : Nat} (past : offset ≤ q)
    (short : q ≤ alignedTo offset multiple base) :
    alignedTo q multiple base = alignedTo offset multiple base := by
  have first : IsLeast (stops q multiple base) (alignedTo offset multiple base) :=
    ⟨⟨short, (alignedTo_mem positive).2⟩, fun _ stop =>
      alignedTo_le positive ⟨past.trans stop.1, stop.2⟩⟩
  exact (alignedTo_isLeast positive).unique first

theorem alignedTo_lt_add (positive : 1 ≤ multiple) (past : base < offset) :
    alignedTo offset multiple base < offset + multiple := by
  have below := (le_roundUp_lt (offset - base) positive).2
  rw [alignedTo, if_neg (Nat.not_le_of_lt past)]
  omega

/-- The last multiple up to a bound tells whether there is a stop up to it. -/
theorem alignedTo_le_iff (positive : 1 ≤ multiple) {bound : Nat} (room : base ≤ bound) :
    alignedTo offset multiple base ≤ bound ↔
      offset ≤ base + (bound - base) / multiple * multiple := by
  constructor
  · intro small
    obtain ⟨behind, k, hk⟩ := mem_stops_iff.mp (@alignedTo_mem offset multiple base positive)
    have count : k ≤ (bound - base) / multiple := by
      rw [Nat.le_div_iff_mul_le positive]
      omega
    have size := Nat.mul_le_mul_right multiple count
    omega
  · intro behind
    have whole := Nat.div_mul_le_self (bound - base) multiple
    have first := alignedTo_le positive (mem_stops_iff.mpr ⟨behind, _, rfl⟩)
    omega

theorem roundUp_lt {distance : Nat} (small : distance < 2 ^ 63) (positive : 1 ≤ multiple)
    (word : multiple < 2 ^ 64) :
    (distance + (multiple - 1)) / multiple * multiple < 2 ^ 64 := by
  have below := (le_roundUp_lt distance positive).2
  -- A large multiple is past every distance within the input, so that one of it is enough.
  rcases Nat.lt_or_ge (2 ^ 63) multiple with large | small
  · have once : (distance + (multiple - 1)) / multiple < 2 := by
      rw [Nat.div_lt_iff_lt_mul positive]
      omega
    have size := Nat.mul_le_mul_right multiple (Nat.le_of_lt_succ once)
    omega
  · omega

theorem alignedTo_sub_lt (small : offset < 2 ^ 63) (positive : 1 ≤ multiple)
    (word : multiple < 2 ^ 64) : alignedTo offset multiple base - base < 2 ^ 64 := by
  unfold alignedTo
  split
  · omega
  · rw [Nat.add_sub_cancel_left]
    exact roundUp_lt (Nat.lt_of_le_of_lt (Nat.sub_le _ _) small) positive word

theorem alignedTo_lt (small : offset < 2 ^ 63) (positive : 1 ≤ multiple)
    (word : multiple < 2 ^ 64) (room : base < 2 ^ 64) (near : multiple ≤ 2 ^ 63 ∨ base = 0) :
    alignedTo offset multiple base < 2 ^ 64 := by
  rcases near with near | rfl
  · rcases Nat.lt_or_ge base offset with past | before
    · have := alignedTo_lt_add positive past
      omega
    · rwa [alignedTo, if_pos before]
  · have distance := @alignedTo_sub_lt offset multiple 0 small positive word
    rwa [Nat.sub_zero] at distance

/-! ### The position as a word -/

/-- The position with the arithmetic taken exactly. -/
def alignedExactly? (offset multiple base : Nat) : Option Nat :=
  some (alignedTo offset multiple base)

theorem alignedWord?_of_lt (h : alignedTo offset multiple base < 2 ^ 64) :
    alignedWord? offset multiple base = some (alignedTo offset multiple base) :=
  if_pos h

theorem alignedWord?_of_le (h : 2 ^ 64 ≤ alignedTo offset multiple base) :
    alignedWord? offset multiple base = none :=
  if_neg (Nat.not_lt_of_le h)

end Action

/-! ### Terms again -/

/-- Evaluations that are compared by their values alone. -/
def Pace.values : Pace Error Log where
  alike _ _ := True
  reports _ := []
  parted _ _ _ := False
  later h _ := h

theorem Env.pairs_offset (env : Env) (offset : Nat) :
    env.Pairs .values { env with offset := offset } where
  resolve := rfl
  call name arguments := by
    unfold Env.call
    dsimp only
    split
    · exact Eval.ofExcept_follows
    · split
      · exact .throw
      · exact ⟨.still fun _ => rfl, fun _ _ _ => .ok trivial⟩

/-- The value of a term has nothing to do with the log, nor with the offset to report. -/
theorem evaluate_again {env : Env} {term : Term} {v : Value} {log log' : Log}
    (h : evaluate env term log = .ok v log') (offset : Nat) (before : Log) :
    ∃ after, evaluate { env with offset := offset } term before = .ok v after := by
  have pairs := (evaluate_follows (env.pairs_offset offset) term).pairs log before trivial
  rw [h] at pairs
  generalize evaluate { env with offset := offset } term before = again at pairs ⊢
  cases pairs with
  | ok => exact ⟨_, rfl⟩

theorem Value.toLength_lt {v : Value} {n : Nat} (h : v.toLength = .ok n) : n < 2 ^ 64 := by
  obtain ⟨w, -, h⟩ := bind_ok h
  split at h
  · next m =>
    split at h
    · obtain rfl := Except.ok.inj h
      have := m.toInt_lt
      omega
    · cases h
  · next x =>
    split at h
    · obtain rfl := Except.ok.inj h
      exact x.toUInt64.toNat_lt
    · cases h
  · cases h

/-- The term, evaluated from the first log to the second one, is a length. -/
def Measures (setting : Setting) (s : State) (term : Term) (log : Log) (n : Nat) (log' : Log) :
    Prop :=
  ∃ v, evaluate (Run.env setting s) term log = .ok v log' ∧ v.toLength = .ok n

/-- The base that an alignment counts from. -/
inductive Bases (setting : Setting) (s : State) : Basis → Log → Nat → Log → Prop where
  | scope {log : Log} : Bases setting s .scope log ((s.regions.head?.map Region.start).getD 0) log
  | global {log : Log} : Bases setting s .global log 0 log
  | term {term : Term} {log log' : Log} {base : Nat} : Measures setting s term log base log' →
    Bases setting s (.term term) log base log'

/-- The state with another offset and another log. -/
def State.moved (s : State) (offset : Nat) (log : Log) : State :=
  { s with cursor := { s.cursor with offset := offset }, log := log }

section

variable {setting : Setting} {s : State} {multiple term : Term} {basis : Basis} {n base : Nat}
  {log log' : Log}

theorem Measures.evalLength (h : Measures setting s term s.log n log') :
    Run.evalLength setting term s = .ok n { s with log := log' } := by
  obtain ⟨v, value, length⟩ := h
  exact Run.evalLength_of_ok value length

theorem Bases.basisOffset (h : Bases setting s basis log base log') :
    Action.basisOffset setting basis { s with log := log } = .ok base { s with log := log' } := by
  cases h with
  | scope => exact Action.basisOffset_scope _
  | global => rfl
  | term h =>
    -- Terms do not see the log that the state has.
    have h : Measures setting { s with log := log } _ log base log' := h
    exact h.evalLength

theorem Measures.again (h : Measures setting s term log n log') (offset : Nat)
    (moved before : Log) :
    ∃ after, Measures setting (s.moved offset moved) term before n after := by
  obtain ⟨v, value, length⟩ := h
  obtain ⟨after, value⟩ := evaluate_again value offset before
  exact ⟨after, v, value, length⟩

theorem Bases.again (h : Bases setting s basis log base log') (offset : Nat)
    (moved before : Log) :
    ∃ after, Bases setting (s.moved offset moved) basis before base after := by
  cases h with
  | scope => exact ⟨before, .scope⟩
  | global => exact ⟨before, .global⟩
  | term h =>
    obtain ⟨after, h⟩ := h.again offset moved before
    exact ⟨after, .term h⟩

/-! ### The node -/

variable {call : Call}

theorem Cursor.skipLenient_to {c : Cursor} {p : Nat} (inside : c.offset ≤ c.length)
    (ahead : c.offset ≤ p) :
    c.skipLenient (p - c.offset) = { c with offset := min c.length p } := by
  have target : c.offset + min (p - c.offset) c.remaining = min c.length p := by
    unfold Cursor.remaining
    omega
  rw [Cursor.skipLenient, Cursor.advance, target]

theorem runNode_align : Block.runNode setting call (.action (.align multiple basis)) =
    Action.alignBy Action.alignedWord? setting multiple basis := by
  rw [Block.runNode, Action.run, Action.runAlign]

namespace Action

variable {find? : Nat → Nat → Nat → Option Nat} {p : Nat}

theorem alignBy_eq (step : Measures setting s multiple s.log n log) (positive : 1 ≤ n)
    (start : Bases setting s basis log base log') :
    alignBy find? setting multiple basis s = (do
      let position ← Run.checked (find? s.cursor.offset n base)
      Run.setCursor ((← Run.cursor).skipLenient (position - s.cursor.offset)) : Run Unit)
        { s with log := log' } := by
  have nonzero : n ≠ 0 := Nat.ne_of_gt positive
  rw [alignBy, bind_of_ok step.evalLength, if_neg nonzero, bind_of_ok start.basisOffset]
  rfl

/-- Where no word holds the position, nothing but the log has changed. -/
theorem alignBy_of_none (step : Measures setting s multiple s.log n log) (positive : 1 ≤ n)
    (start : Bases setting s basis log base log') (none : find? s.cursor.offset n base = none) :
    alignBy find? setting multiple basis s = .error .overflow { s with log := log' } := by
  rw [alignBy_eq step positive start, none]
  rfl

theorem alignBy_of_some (inside : s.cursor.offset ≤ s.cursor.length)
    (step : Measures setting s multiple s.log n log) (positive : 1 ≤ n)
    (start : Bases setting s basis log base log') (ahead : s.cursor.offset ≤ p)
    (found : find? s.cursor.offset n base = some p) :
    alignBy find? setting multiple basis s = .ok () (s.moved (min s.cursor.length p) log') := by
  rw [alignBy_eq step positive start, found, State.moved, ← Cursor.skipLenient_to inside ahead]
  rfl

/-- However the position is found: from there the same alignment does not move any more. -/
theorem alignBy_moves (inside : s.cursor.offset ≤ s.cursor.length)
    (step : Measures setting s multiple s.log n log) (positive : 1 ≤ n)
    (start : Bases setting s basis log base log')
    (first : IsLeast (stops s.cursor.offset n base) p)
    (found : ∀ offset, alignedTo offset n base = p → find? offset n base = some p) :
    alignBy find? setting multiple basis s = .ok () (s.moved (min s.cursor.length p) log') ∧
      ∃ after, alignBy find? setting multiple basis (s.moved (min s.cursor.length p) log') =
        .ok () (s.moved (min s.cursor.length p) after) := by
  have position : alignedTo s.cursor.offset n base = p := (alignedTo_isLeast positive).unique first
  refine ⟨alignBy_of_some inside step positive start first.1.1 (found _ position), ?_⟩
  obtain ⟨between, step⟩ := step.again (min s.cursor.length p) log' log'
  obtain ⟨after, start⟩ := start.again (min s.cursor.length p) log' between
  have same : alignedTo (min s.cursor.length p) n base = p :=
    (alignedTo_between positive (Nat.le_min.mpr ⟨inside, first.1.1⟩)
      (position.symm ▸ Nat.min_le_right _ _)).trans position
  exact ⟨after, alignBy_of_some (s := s.moved _ _) (Nat.min_le_left _ _) step positive start
    (Nat.min_le_right _ _) (found _ same)⟩

end Action

/-- The first position that the alignment may stop at, or the end of the input if that comes first,
is where exact arithmetic moves the cursor. There it has nothing left to do. The node does the same
where a word holds the position, and else it halts in front of the move. -/
theorem align_moves (inside : s.cursor.offset ≤ s.cursor.length)
    (step : Measures setting s multiple s.log n log) (positive : 1 ≤ n)
    (start : Bases setting s basis log base log') :
    let exactly := Action.alignBy Action.alignedExactly? setting multiple basis
    let node := Block.runNode setting call (.action (.align multiple basis))
    ∃ p, IsLeast (Action.stops s.cursor.offset n base) p ∧
      (exactly s = .ok () (s.moved (min s.cursor.length p) log') ∧
        ∃ after, exactly (s.moved (min s.cursor.length p) log') =
          .ok () (s.moved (min s.cursor.length p) after)) ∧
      (p < 2 ^ 64 → node s = .ok () (s.moved (min s.cursor.length p) log') ∧
        ∃ after, node (s.moved (min s.cursor.length p) log') =
          .ok () (s.moved (min s.cursor.length p) after)) ∧
      (2 ^ 64 ≤ p → node s = .error .overflow { s with log := log' }) := by
  dsimp only
  have first : IsLeast _ (Action.alignedTo s.cursor.offset n base) :=
    Action.alignedTo_isLeast positive
  refine ⟨_, first, Action.alignBy_moves inside step positive start first ?_, fun word => ?_,
    fun large => ?_⟩
  · exact fun _ same => congrArg some same
  · rw [runNode_align]
    refine Action.alignBy_moves inside step positive start first fun offset same => ?_
    rw [Action.alignedWord?_of_lt (same.symm ▸ word), same]
  · rw [runNode_align]
    exact Action.alignBy_of_none step positive start (Action.alignedWord?_of_le large)

theorem Measures.lt (h : Measures setting s term log n log') : n < 2 ^ 64 := by
  obtain ⟨v, -, length⟩ := h
  exact v.toLength_lt length

theorem Bases.lt (small : s.cursor.length < 2 ^ 63)
    (started : ∀ r ∈ s.regions, r.start ≤ s.cursor.length)
    (start : Bases setting s basis log base log') : base < 2 ^ 64 := by
  cases start with
  | scope =>
    cases regions : s.regions with
    | nil => exact Nat.two_pow_pos 64
    | cons r rest =>
      have := started r (regions ▸ List.mem_cons_self)
      show r.start < 2 ^ 64
      omega
  | global => exact Nat.two_pow_pos 64
  | term h => exact h.lt

/-- The first position that an alignment may stop at is not behind the cursor. It is too large for a
word where no stop between the cursor and `2 ^ 64` is left, which takes a large multiple and a base
past zero. There the node halts, and anywhere else it moves. -/
theorem align_words (inside : s.cursor.offset ≤ s.cursor.length)
    (small : s.cursor.length < 2 ^ 63) (started : ∀ r ∈ s.regions, r.start ≤ s.cursor.length)
    (step : Measures setting s multiple s.log n log) (positive : 1 ≤ n)
    (start : Bases setting s basis log base log') :
    let target := Action.alignedTo s.cursor.offset n base
    s.cursor.offset ≤ target ∧
    target - base < 2 ^ 64 ∧
    (target < 2 ^ 64 ↔ s.cursor.offset ≤ base + (2 ^ 64 - 1 - base) / n * n) ∧
    (n ≤ 2 ^ 63 ∨ base = 0 → target < 2 ^ 64) ∧
    Block.runNode setting call (.action (.align multiple basis)) s =
      if target < 2 ^ 64 then .ok () (s.moved (min s.cursor.length target) log')
      else .error .overflow { s with log := log' } := by
  dsimp only
  have low : s.cursor.offset < 2 ^ 63 := Nat.lt_of_le_of_lt inside small
  have word : n < 2 ^ 64 := step.lt
  have room : base < 2 ^ 64 := start.lt small started
  have ahead : s.cursor.offset ≤ Action.alignedTo s.cursor.offset n base :=
    (Action.alignedTo_mem positive).1
  refine ⟨ahead, Action.alignedTo_sub_lt low positive word, ?_,
    Action.alignedTo_lt low positive word room, ?_⟩
  · rw [← Action.alignedTo_le_iff positive (Nat.le_sub_one_of_lt room)]
    exact Nat.lt_iff_le_pred (Nat.two_pow_pos 64)
  · rw [runNode_align]
    split
    · next word =>
      exact Action.alignBy_of_some inside step positive start ahead (Action.alignedWord?_of_lt word)
    · next large =>
      exact Action.alignBy_of_none step positive start
        (Action.alignedWord?_of_le (Nat.le_of_not_lt large))

end

namespace DecodeSample

/-- Skips two bytes, and aligns the field `rest` to `multiple` from the first byte on. -/
def aligned (multiple : UInt64) : Setting where
  schema := {
    byteOrder := .big
    templates := []
    spec := [
      .action (.skip (.uint 2)),
      .action (.align (.uint multiple) (.term (.uint 1))),
      .action (.bytesLenient "rest" (.uint 1))] }
  config := .default
  functions := []

def align (multiple : UInt64) (basis : Basis) (s : State) : EStateM.Result Halt State Unit :=
  Block.runNode (aligned multiple) (Block.callWithin (aligned multiple) 0)
    (.action (.align (.uint multiple) basis)) s

def located (length offset : Nat) (regions : List Region) : State where
  cursor := ⟨List.replicate length 0, offset, .big⟩
  scopes := .empty
  regions := regions
  depth := regions.length + 1
  log := []

/-- Past the end of the inner one of two regions. -/
def overshot : State := located 12 10 [⟨5, 8⟩, ⟨3, 12⟩]

/-- In front of the last of three bytes. -/
def last : State := located 3 2 []

end DecodeSample

open DecodeSample in
theorem align_moves_overshot :
    (align 4 .scope overshot = .ok () (overshot.moved 12 []) ∧
      ∃ log, align 4 .scope (overshot.moved 12 []) = .ok () (overshot.moved 12 log)) ∧
    (align 4 (.term (.uint 11)) overshot = .ok () (overshot.moved 11 []) ∧
      ∃ log, align 4 (.term (.uint 11)) (overshot.moved 11 []) =
        .ok () (overshot.moved 11 log)) ∧
    Action.alignBy Action.alignedExactly? (aligned 0) (.uint 18446744073709551615)
      (.term (.uint 1)) last = .ok () (last.moved 3 []) ∧
    align 18446744073709551615 (.term (.uint 1)) last = .error .overflow last := by
  obtain ⟨p, first, -, moved, -⟩ := @align_moves (aligned 4) overshot (.uint 4) .scope 4 5 [] []
    (Block.callWithin (aligned 4) 0) (by decide) ⟨_, rfl, rfl⟩ (by decide) .scope
  obtain rfl : p = 13 := first.unique (Action.alignedTo_isLeast (by decide))
  obtain ⟨q, ahead, -, jumped, -⟩ := @align_moves (aligned 4) overshot (.uint 4)
    (.term (.uint 11)) 4 11 [] [] (Block.callWithin (aligned 4) 0) (by decide) ⟨_, rfl, rfl⟩
    (by decide) (.term ⟨_, rfl, rfl⟩)
  obtain rfl : q = 11 := ahead.unique (Action.alignedTo_isLeast (by decide))
  obtain ⟨r, far, exactly, -, halted⟩ := @align_moves (aligned 0) last
    (.uint 18446744073709551615) (.term (.uint 1)) 18446744073709551615 1 [] []
    (Block.callWithin (aligned 0) 0) (by decide) ⟨_, rfl, rfl⟩ (by decide) (.term ⟨_, rfl, rfl⟩)
  obtain rfl : r = 2 ^ 64 := far.unique (Action.alignedTo_isLeast (by decide))
  exact ⟨moved (by decide), jumped (by decide), exactly.1, halted (Nat.le_refl _)⟩

open DecodeSample in
/-- From 1 on, the first multiple of the largest word ends at `2 ^ 64`. -/
theorem align_words_beyond :
    Measures (aligned 18446744073709551615) last (.uint 18446744073709551615) []
      18446744073709551615 [] ∧
    Bases (aligned 18446744073709551615) last (.term (.uint 1)) [] 1 [] ∧
    Action.alignedTo last.cursor.offset 18446744073709551615 1 = 2 ^ 64 ∧
    align 18446744073709551615 (.term (.uint 1)) last = .error .overflow last ∧
    (decode (aligned 18446744073709551615) [0xaa, 0xbb, 0xcc]).result = .error .overflow :=
  ⟨⟨_, rfl, rfl⟩, .term ⟨_, rfl, rfl⟩, by decide, rfl, rfl⟩

open DecodeSample in
theorem align_words_last :
    Action.alignedTo 10 4 5 < 2 ^ 64 ∧
    align 4 .scope overshot = .ok () (overshot.moved 12 []) ∧
    align 18446744073709551615 (.term (.uint 1)) last = .error .overflow last := by
  obtain ⟨-, -, -, fits, moved⟩ := @align_words (aligned 4) overshot (.uint 4) .scope 4 5 [] []
    (Block.callWithin (aligned 4) 0) (by decide) (by decide) (by decide) ⟨_, rfl, rfl⟩ (by decide)
    .scope
  obtain ⟨-, -, -, -, halted⟩ := @align_words (aligned 18446744073709551615) last
    (.uint 18446744073709551615) (.term (.uint 1)) 18446744073709551615 1 [] []
    (Block.callWithin (aligned 18446744073709551615) 0) (by decide) (by decide) (by decide)
    ⟨_, rfl, rfl⟩ (by decide) (.term ⟨_, rfl, rfl⟩)
  exact ⟨fits (.inl (by decide)), moved.trans (if_pos (fits (.inl (by decide)))),
    halted.trans (if_neg (by decide))⟩

end ByteSchema
