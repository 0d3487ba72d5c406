import ByteSchema.Number.Numeral

/-!
# Digits of printed integers

An integer is printed as its decimal digits, after a minus sign where it is negative, and is what
these read as: `integer?_toString`. In any base up to sixteen the digits read as their number, with
zeros in front and letters of either case among them: `Spells.natural?`.
-/

namespace ByteSchema.Numeral

/-! ### Digits -/

theorem range_of_isDigit {c : Char} (h : c.isDigit = true) : 48 ≤ c.toNat ∧ c.toNat ≤ 57 := by
  simpa [Char.isDigit, UInt32.le_iff_toNat_le] using h

theorem range_of_digit? {base : Nat} {c : Char} (h : (digit? base c).isSome = true) :
    48 ≤ c.toNat ∧ c.toNat ≤ 122 := by
  refine Decidable.byContradiction fun outside => ?_
  have decimal : ¬ (48 ≤ c.toNat ∧ c.toNat ≤ 57) := by omega
  have lower : ¬ (97 ≤ c.toNat ∧ c.toNat ≤ 122) := by omega
  have upper : ¬ (65 ≤ c.toNat ∧ c.toNat ≤ 90) := by omega
  simp [digit?, decimal, lower, upper] at h

theorem toNat_toLower (c : Char) :
    c.toLower.toNat = if 65 ≤ c.toNat ∧ c.toNat ≤ 90 then c.toNat + 32 else c.toNat := by
  split
  · next upper =>
    have all : ∀ n ≤ 90, 65 ≤ n → (Char.ofNat n).toLower.toNat = n + 32 := by decide
    have shifted := all c.toNat upper.2 upper.1
    rwa [Char.ofNat_toNat] at shifted
  · next other =>
    have kept : ¬ (c.val ≥ 'A'.val ∧ c.val ≤ 'Z'.val) := other
    unfold Char.toLower
    rw [dif_neg kept]

/-- Letters stand for digits in either case. -/
theorem digit?_toLower (base : Nat) (c : Char) : digit? base c.toLower = digit? base c := by
  unfold digit?
  rw [toNat_toLower]
  by_cases upper : 65 ≤ c.toNat ∧ c.toNat ≤ 90
  · have decimal : ¬ (48 ≤ c.toNat ∧ c.toNat ≤ 57) := by omega
    have lower : ¬ (97 ≤ c.toNat ∧ c.toNat ≤ 122) := by omega
    have decimal' : ¬ (48 ≤ c.toNat + 32 ∧ c.toNat + 32 ≤ 57) := by omega
    have lower' : 97 ≤ c.toNat + 32 ∧ c.toNat + 32 ≤ 122 := by omega
    simp only [if_pos upper, if_neg decimal, if_neg lower, if_neg decimal', if_pos lower']
    rw [show c.toNat + 32 - 87 = c.toNat - 55 by omega]
  · rw [if_neg upper]

theorem digit?_digitChar {base d : Nat} (small : d < base) (le_sixteen : base ≤ 16) :
    digit? base (Nat.digitChar d) = some d := by
  have all : ∀ base ≤ 16, ∀ d < base, digit? base (Nat.digitChar d) = some d := by decide
  exact all base le_sixteen d small

theorem digits?_append (base acc : Nat) (xs ys : List Char) :
    digits? base acc (xs ++ ys) = (digits? base acc xs).bind fun n => digits? base n ys := by
  induction xs generalizing acc with
  | nil => rfl
  | cons c rest ih =>
    rw [List.cons_append, digits?, digits?]
    cases digit? base c with
    | none => rfl
    | some d => exact ih _

theorem digits?_map_toLower (base acc : Nat) (cs : List Char) :
    digits? base acc (cs.map Char.toLower) = digits? base acc cs := by
  induction cs generalizing acc with
  | nil => rfl
  | cons c rest ih =>
    rw [List.map_cons, digits?, digits?, digit?_toLower]
    cases digit? base c with
    | none => rfl
    | some d => exact ih _

theorem isSome_digit? {base acc n : Nat} {cs : List Char} (h : digits? base acc cs = some n) :
    ∀ c ∈ cs, (digit? base c).isSome = true := by
  induction cs generalizing acc with
  | nil => exact fun _ none => nomatch none
  | cons c rest ih =>
    unfold digits? at h
    split at h
    · next d hd =>
      intro c' hc
      obtain rfl | later := List.mem_cons.mp hc
      · rw [hd]
        rfl
      · exact ih h c' later
    · cases h

theorem natural?_eq_some {base n : Nat} {cs : List Char} :
    natural? base cs = some n ↔ cs ≠ [] ∧ digits? base 0 cs = some n := by
  cases cs with
  | nil => simp [natural?]
  | cons c rest => exact ⟨fun h => ⟨List.cons_ne_nil c rest, h⟩, And.right⟩

section

variable {base : Nat} (one_lt : 1 < base) (le_sixteen : base ≤ 16)

include one_lt le_sixteen

theorem digits?_toDigits (n : Nat) : digits? base 0 (Nat.toDigits base n) = some n := by
  induction n using Nat.strongRecOn with
  | ind n ih =>
    rw [Nat.toDigits_eq_if one_lt]
    split
    · next small =>
      rw [digits?, digit?_digitChar small le_sixteen]
      exact congrArg some (by omega)
    · next large =>
      have less : n / base < n := Nat.div_lt_self (by omega) one_lt
      have last : n % base < base := Nat.mod_lt n (by omega)
      rw [digits?_append, ih (n / base) less, Option.bind_some, digits?,
        digit?_digitChar last le_sixteen]
      exact congrArg some (by rw [Nat.mul_comm, Nat.div_add_mod])

theorem digits?_zeros (zeros : Nat) (cs : List Char) :
    digits? base 0 (List.replicate zeros '0' ++ cs) = digits? base 0 cs := by
  have zero : digit? base '0' = some 0 := digit?_digitChar (d := 0) (by omega) le_sixteen
  induction zeros with
  | zero => rfl
  | succ zeros ih =>
    rw [List.replicate_succ, List.cons_append, digits?, zero]
    exact (congrArg (fun acc => digits? base acc _) (by omega)).trans ih

end

theorem natural?_toDigits (n : Nat) : natural? 10 (Nat.toDigits 10 n) = some n :=
  natural?_eq_some.mpr ⟨Nat.toDigits_ne_nil, digits?_toDigits (by decide) (by decide) n⟩

/-! ### Signs -/

/-- Without a sign in front the digits are all there is. -/
theorem unsigned?_of_natural? {base n : Nat} {cs : List Char} (h : natural? base cs = some n) :
    unsigned? base cs = some n := by
  have no_digit : digit? base '+' = none := by simp [digit?]
  unfold unsigned?
  split
  · next rest =>
    have digit := isSome_digit? (natural?_eq_some.mp h).2 '+' List.mem_cons_self
    rw [no_digit] at digit
    cases digit
  · exact h

theorem integer?_of_natural? {n : Nat} {cs : List Char} (h : natural? 10 cs = some n) :
    integer? cs = some (n : Int) := by
  unfold integer?
  split
  · next rest =>
    have digit := isSome_digit? (natural?_eq_some.mp h).2 '-' List.mem_cons_self
    exact absurd digit (by decide)
  · rw [unsigned?_of_natural? h]
    rfl

/-! ### Spellings -/

/-- The digits of `n` behind any number of zeros, with letters of either case. -/
inductive Spells (base n : Nat) : List Char → Prop
  | intro (zeros : Nat) {digits : List Char} : digits.map Char.toLower = Nat.toDigits base n →
      Spells base n (List.replicate zeros '0' ++ digits)

theorem Spells.natural? {base n : Nat} {cs : List Char} (h : Spells base n cs)
    (one_lt : 1 < base) (le_sixteen : base ≤ 16) : natural? base cs = some n := by
  obtain ⟨zeros, same⟩ := h
  refine natural?_eq_some.mpr ⟨fun empty => ?_, ?_⟩
  · rw [(List.append_eq_nil_iff.mp empty).2] at same
    exact Nat.toDigits_ne_nil same.symm
  · rw [digits?_zeros one_lt le_sixteen, ← digits?_map_toLower, same,
      digits?_toDigits one_lt le_sixteen]

/-! ### Printed integers -/

theorem isDigit_of_mem {n : Nat} {c : Char} (h : c ∈ Nat.toDigits 10 n) : c.isDigit = true :=
  Nat.isDigit_of_mem_toDigits (by decide) (by decide) h

theorem toList_toString (n : Nat) : (toString n).toList = Nat.toDigits 10 n := by
  have repr : toString n = n.repr := rfl
  rw [repr, Nat.repr_eq_ofList_toDigits, String.toList_ofList]

theorem toList_toString_negSucc (n : Nat) :
    (toString (Int.negSucc n)).toList = '-' :: Nat.toDigits 10 (n + 1) := by
  have repr : toString (Int.negSucc n) = "-" ++ toString (n + 1) := rfl
  rw [repr, String.toList_append, toList_toString]
  rfl

theorem isDigit_of_mem_toString {n : Int} {c : Char} (h : c ∈ (toString n).toList) :
    c = '-' ∨ c.isDigit = true := by
  cases n with
  | ofNat n =>
    rw [show toString (Int.ofNat n) = toString n from rfl, toList_toString] at h
    exact .inr (isDigit_of_mem h)
  | negSucc n =>
    rw [toList_toString_negSucc, List.mem_cons] at h
    exact h.imp_right isDigit_of_mem

theorem spells_toString (n : Nat) : Spells 10 n (toString n).toList := by
  rw [toList_toString]
  refine .intro 0 ?_
  have kept {c : Char} (h : c.isDigit = true) : c.toLower = c := by
    have range := range_of_isDigit h
    rw [← Char.toNat_inj, toNat_toLower, if_neg (by omega)]
  exact (List.map_congr_left fun c hc => kept (isDigit_of_mem hc)).trans (List.map_id _)

theorem integer?_toString (n : Int) : integer? (toString n).toList = some n := by
  cases n with
  | ofNat n =>
    rw [show toString (Int.ofNat n) = toString n from rfl, toList_toString]
    exact integer?_of_natural? (natural?_toDigits n)
  | negSucc n =>
    rw [toList_toString_negSucc, integer?, natural?_toDigits]
    rfl

end ByteSchema.Numeral
