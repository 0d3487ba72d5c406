import ByteSchema.Proofs.Decode.Outcomes
import ByteSchema.Proofs.Decode.Termination

/-!
# Limits on levels

A limit on levels cuts a decode off, and has no other part in it: up to there the decode is the
same as under a higher limit, or under none.
-/

namespace ByteSchema

/-- The setting with another limit on levels; 0 is no limit. -/
def Setting.limitedTo (limit : Nat) (setting : Setting) : Setting :=
  { setting with config := { setting.config with maxDepth := limit } }

/-- The limit on levels that a decode ended at, if it did. -/
def Outcome.limit? (o : Outcome) : Option Nat :=
  match o.result with
  | .error (.failed (.depthExceeded limit)) => some limit
  | _ => none

theorem Outcome.limit?_of_result {o : Outcome} {limit : Nat}
    (h : o.result = .error (.failed (.depthExceeded limit))) : o.limit? = some limit := by
  rw [limit?, h]

theorem Outcome.result_of_limit? {o : Outcome} (h : o.limit? ≠ none) :
    ∃ limit, o.result = .error (.failed (.depthExceeded limit)) := by
  unfold limit? at h
  split at h
  · next limit hresult => exact ⟨limit, hresult⟩
  · exact absurd rfl h

variable {setting : Setting} {data : List UInt8} {m m' : Nat}

/-- The first decode may halt at its limit, and the second one goes on from there. -/
def Sides.cutOff (data : List UInt8) : Sides :=
  .plain data [] (fun halt ds es => (∃ limit, halt = .failed (.depthExceeded limit)) ∧ ds <+: es)
    fun ⟨limit, reported⟩ more => ⟨limit, reported.trans more⟩

theorem Block.enter_cutOff (limited : 0 < m) (h : m ≤ m' ∨ m' = 0) :
    Follows (Sides.cutOff data).pace (enter (setting.limitedTo m))
      (enter (setting.limitedTo m')) where
  grows := enter_grows _
  pairs s s' hs := by
    have parted : (Sides.cutOff data).parted (.failed (.depthExceeded m)) s.diagnostics
        s'.diagnostics :=
      ⟨⟨m, rfl⟩, hs.reported ▸ List.prefix_rfl⟩
    have shallow (deep : ¬ TooDeep (setting.limitedTo m) s) :
        ¬ TooDeep (setting.limitedTo m') s' := by
      have depth := hs.depth
      simp only [TooDeep, Setting.limitedTo] at deep ⊢
      omega
    by_cases deep : TooDeep (setting.limitedTo m) s
    · rw [enter_of_tooDeep deep]
      by_cases deep' : TooDeep (setting.limitedTo m') s'
      · rw [enter_of_tooDeep deep']
        exact .partedError parted
      · rw [enter_of_not_tooDeep deep']
        exact .partedOk parted
    · rw [enter_of_not_tooDeep deep, enter_of_not_tooDeep (shallow deep)]
      exact .ok { hs with depth := congrArg (· + 1) hs.depth }

theorem Setting.limitedTo_similar (setting : Setting) (m m' : Nat) :
    (setting.limitedTo m).Similar (setting.limitedTo m') :=
  ⟨rfl, rfl, rfl⟩

def Pairing.cutOff (setting : Setting) (data : List UInt8) (limited : 0 < m)
    (h : m ≤ m' ∨ m' = 0) : Pairing (setting.limitedTo m) (setting.limitedTo m') :=
  .plain (q := .cutOff data) rfl rfl (setting.limitedTo_similar m m') (.inl rfl)
    (Block.enter_cutOff limited h)

namespace Decoder

/-- Under a higher limit, or none, a decode is the same up to the first limit. -/
theorem outcomes_limitedTo (limited : 0 < m) (h : m ≤ m' ∨ m' = 0) (levels : Nat) :
    (Sides.cutOff data).Outcomes (decodeWithin levels (setting.limitedTo m) data)
      (decodeWithin levels (setting.limitedTo m') data) :=
  decodeWithin_follows (p := .cutOff setting data limited h) (List.append_nil data) (.inl rfl)
    rfl rfl rfl rfl levels

theorem decodeWithin_limitedTo (limited : 0 < m) {levels : Nat} (h : m ≤ levels) :
    decodeWithin levels (setting.limitedTo m) data = decode (setting.limitedTo m) data := by
  refine decodeWithin_more ?_ (not_exhausted (.inl limited) data)
  rw [Decoder.levels, if_pos (show 0 < (setting.limitedTo m).config.maxDepth from limited)]
  exact h

theorem limit_of_depthExceeded {limit : Nat}
    (honest : ∀ name f arguments limit, setting.functions.get? name = some f →
      f arguments ≠ .error (.depthExceeded limit))
    (h : (decode (setting.limitedTo m) data).result = .error (.failed (.depthExceeded limit))) :
    limit = m := by
  cases cause_of_failed h with
  | term cause =>
    cases cause with
    | function hget hf => exact absurd hf (honest _ _ _ _ hget)
  | depthExceeded => rfl

end Decoder

/-- What a decode under a limit comes to, other than the limit, it comes to under every higher limit
and under none. Where it comes to the limit, a decode under a lower one comes to its own limit, and
reports nothing else before. Without a limit, calls may nest as deep as `levels` says. -/
theorem limit_cuts_off (setting : Setting) (data : List UInt8) (m : Nat) (limited : 0 < m)
    (honest : ∀ name f arguments limit, setting.functions.get? name = some f →
      f arguments ≠ .error (.depthExceeded limit)) :
    let cut := decode (setting.limitedTo m) data
    (cut.limit? = none →
      (∀ m', m ≤ m' → (decode (setting.limitedTo m') data).result = cut.result ∧
        (decode (setting.limitedTo m') data).diagnostics = cut.diagnostics) ∧
      (m ≤ UInt64.size → (decode (setting.limitedTo 0) data).result = cut.result ∧
        (decode (setting.limitedTo 0) data).diagnostics = cut.diagnostics) ∧
      ∀ levels, m ≤ levels →
        (Decoder.decodeWithin levels (setting.limitedTo 0) data).result = cut.result ∧
          (Decoder.decodeWithin levels (setting.limitedTo 0) data).diagnostics =
            cut.diagnostics) ∧
    (cut.limit? ≠ none → ∀ m', 1 ≤ m' → m' ≤ m →
        (decode (setting.limitedTo m') data).result = .error (.failed (.depthExceeded m')) ∧
          (decode (setting.limitedTo m') data).diagnostics <+: cut.diagnostics) := by
  intro cut
  -- The lower limit leaves no need for more calls, so both decodes can be given the same number.
  have pairs {low high : Nat} (hlow : 0 < low) (h : low ≤ high ∨ high = 0) {levels : Nat}
      (enough : low ≤ levels) : (Sides.cutOff data).Outcomes (decode (setting.limitedTo low) data)
        (Decoder.decodeWithin levels (setting.limitedTo high) data) := by
    rw [← Decoder.decodeWithin_limitedTo hlow enough]
    exact Decoder.outcomes_limitedTo hlow h levels
  refine ⟨fun uncut => ?_, fun hcut m' positive lower => ?_⟩
  · have same {high : Nat} (h : m ≤ high ∨ high = 0) (levels : Nat) (enough : m ≤ levels) :
        (Decoder.decodeWithin levels (setting.limitedTo high) data).result = cut.result ∧
          (Decoder.decodeWithin levels (setting.limitedTo high) data).diagnostics =
            cut.diagnostics := by
      cases pairs limited h enough with
      | level result reported => exact ⟨result, reported⟩
      | parted halted parted =>
        obtain ⟨⟨limit, rfl⟩, -⟩ := parted
        cases uncut.symm.trans (Outcome.limit?_of_result halted)
    refine ⟨fun m' higher => ?_, fun small => ?_, same (.inr rfl)⟩
    · rw [← Decoder.decodeWithin_limitedTo (limited.trans_le higher) (Nat.le_refl m')]
      exact same (.inl higher) m' higher
    · exact same (.inr rfl) _ (small.trans (Nat.le_add_right _ _))
  · obtain ⟨limit, hcut⟩ := Outcome.result_of_limit? hcut
    have outcomes := pairs positive (.inl lower) lower
    rw [Decoder.decodeWithin_limitedTo limited (Nat.le_refl m)] at outcomes
    cases outcomes with
    | level result reported =>
      have halted := result.symm.trans hcut
      obtain rfl := Decoder.limit_of_depthExceeded honest halted
      exact ⟨halted, reported ▸ List.prefix_rfl⟩
    | parted halted parted =>
      obtain ⟨⟨limit', rfl⟩, earlier⟩ := parted
      obtain rfl := Decoder.limit_of_depthExceeded honest halted
      exact ⟨halted, earlier⟩

namespace DecodeSample

/-- Links of one byte each, of which a zero is the last; calls a function that is not there. -/
def chain : Setting where
  schema := {
    byteOrder := .big
    templates := [("link", ⟨[], [
      .action (.uint "n" (.uint 1)),
      .action (.bind "seen" (.call [.ref "mark"])),
      .branch (.ref "n") [.template "link" (.named [])] []]⟩)]
    spec := [.template "link" (.named [])] }
  config := .default
  functions := []

end DecodeSample

open DecodeSample in
theorem limit_cuts_off_chain :
    (∀ m', 5 ≤ m' → (decode (chain.limitedTo m') [1, 0]).result =
      (decode (chain.limitedTo 5) [1, 0]).result) ∧
    (decode (chain.limitedTo 0) [1, 0]).diagnostics =
      [.unknownFunction "mark" 1, .unknownFunction "mark" 2] ∧
    ∀ m', 1 ≤ m' → m' ≤ 4 →
      (decode (chain.limitedTo m') [1, 0]).result = .error (.failed (.depthExceeded m')) ∧
        (decode (chain.limitedTo m') [1, 0]).diagnostics <+:
          [.unknownFunction "mark" 1, .unknownFunction "mark" 2] := by
  have uncut : (decode (chain.limitedTo 5) [1, 0]).limit? = none := by decide +kernel
  have cut : (decode (chain.limitedTo 4) [1, 0]).limit? ≠ none := by decide +kernel
  have reported : (decode (chain.limitedTo 5) [1, 0]).diagnostics =
    [.unknownFunction "mark" 1, .unknownFunction "mark" 2] := by decide +kernel
  have reported' : (decode (chain.limitedTo 4) [1, 0]).diagnostics =
    [.unknownFunction "mark" 1, .unknownFunction "mark" 2] := by decide +kernel
  obtain ⟨higher, free, -⟩ := (limit_cuts_off chain [1, 0] 5 (by decide) nofun).1 uncut
  have lower := (limit_cuts_off chain [1, 0] 4 (by decide) nofun).2 cut
  rw [reported'] at lower
  exact ⟨fun m' h => (higher m' h).1, (free (by decide)).2.trans reported, lower⟩

end ByteSchema
