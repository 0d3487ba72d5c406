import ByteSchema.Decode.Block
import ByteSchema.Proofs.Number.Digits
import ByteSchema.Proofs.Value.Words
import Mathlib.Data.List.TakeWhile

/-!
# Numbers read back from texts

The text that shows an integer reads as that integer, exactly, and so do the digits of base sixteen
behind `0x`, each with any white space around: `texts_read_back`. So the cases of a switch that are
named by integers are told apart as the integers are.
-/

namespace ByteSchema

/-! ### White space -/

namespace Text

/-- Nothing but white space. -/
def Blank (s : String) : Prop := ∀ c ∈ s.toList, isBlank c = true

instance (s : String) : Decidable (Blank s) :=
  decidable_of_iff (s.toList.all isBlank = true) List.all_eq_true

theorem isBlank_of_range {c : Char} (low : 48 ≤ c.toNat) (high : c.toNat ≤ 122) :
    isBlank c = false := by
  have all : ∀ n ≤ 122, 48 ≤ n → isBlank (Char.ofNat n) = false := by decide
  have plain := all c.toNat high low
  rwa [Char.ofNat_toNat] at plain

theorem dropWhile_of_notBlank {cs : List Char} (h : ∀ c ∈ cs, isBlank c = false) :
    cs.dropWhile isBlank = cs := by
  cases cs with
  | nil => rfl
  | cons c rest => rw [List.dropWhile_cons, h c List.mem_cons_self, if_neg Bool.false_ne_true]

theorem trim_of_notBlank {cs : List Char} (h : ∀ c ∈ cs, isBlank c = false) : trim cs = cs := by
  rw [trim, dropWhile_of_notBlank h,
    dropWhile_of_notBlank fun c hc => h c (List.mem_reverse.mp hc), List.reverse_reverse]

/-- White space around a text is nothing to it. -/
theorem trim_surrounded {before cs after : List Char} (hbefore : ∀ c ∈ before, isBlank c = true)
    (hafter : ∀ c ∈ after, isBlank c = true) : trim (before ++ cs ++ after) = trim cs := by
  have behind : ∀ c ∈ after.reverse, isBlank c = true := fun c hc =>
    hafter c (List.mem_reverse.mp hc)
  have nothing : after.dropWhile isBlank = [] := List.dropWhile_eq_nil_iff.mpr hafter
  rw [trim, trim, List.append_assoc, List.dropWhile_append_of_pos hbefore, List.dropWhile_append]
  split
  · next blank =>
    rw [List.isEmpty_iff.mp blank, nothing]
  · rw [List.reverse_append, List.dropWhile_append_of_pos behind]

end Text

/-! ### Reading -/

namespace Numeral

theorem value?_surrounded {before after : String} (hbefore : Text.Blank before)
    (hafter : Text.Blank after) (s : String) : value? (before ++ s ++ after) = value? s := by
  rw [value?, value?, String.toList_append, String.toList_append,
    Text.trim_surrounded hbefore hafter]

theorem decimal?_toString (n : Int64) : decimal? (toString n.toInt).toList = some (.int n) := by
  rw [decimal?, integer?_toString, Option.bind_some, Word.ofInt?_toInt]

theorem value?_displayInt (n : Int64) : value? (Value.displayInt n) = some (.int n) := by
  have digits {c : Char} : c ∈ (toString n.toInt).toList → c = '-' ∨ c.isDigit = true :=
    isDigit_of_mem_toString
  have trimmed : Text.trim (Value.displayInt n).toList = (toString n.toInt).toList :=
    Text.trim_of_notBlank fun c hc => by
      rcases digits hc with rfl | digit
      · decide
      · have range := range_of_isDigit digit
        exact Text.isBlank_of_range range.1 (by omega)
  have value := decimal?_toString n
  rw [value?, trimmed]
  generalize (toString n.toInt).toList = cs at *
  split
  · nomatch value
  · exact absurd (digits (c := 'x') (by simp)) (by decide)
  · exact absurd (digits (c := 'X') (by simp)) (by decide)
  · exact value

theorem word?_of_spells {n : UInt64} {cs : List Char} (h : Spells 16 n.toNat cs) :
    word? cs = some (.ofNat n.toNat) := by
  have digits := unsigned?_of_natural? (h.natural? (by decide) (by decide))
  rw [word?, digits]
  exact if_pos n.toNat_lt

/-- The marks in front of digits of base sixteen. -/
def marks : List String := ["0x", "0X"]

theorem value?_marked {n : UInt64} {mark digits : String} (marked : mark ∈ marks)
    (h : Spells 16 n.toNat digits.toList) : value? (mark ++ digits) = some (.ofNat n.toNat) := by
  have spelt := natural?_eq_some.mp (h.natural? (by decide) (by decide))
  have front : (marks.all fun mark => mark.toList.all fun c => !Text.isBlank c) = true := by decide
  have plain : ∀ c ∈ (mark ++ digits).toList, Text.isBlank c = false := by
    intro c hc
    rw [String.toList_append, List.mem_append] at hc
    rcases hc with inside | inside
    · have shown := List.all_eq_true.mp (List.all_eq_true.mp front mark marked) c inside
      simpa using shown
    · have range := range_of_digit? (isSome_digit? spelt.2 c inside)
      exact Text.isBlank_of_range range.1 range.2
  rw [value?, Text.trim_of_notBlank plain, String.toList_append]
  rcases List.mem_cons.mp marked with rfl | marked
  · exact word?_of_spells h
  · obtain rfl := List.mem_singleton.mp marked
    exact word?_of_spells h

end Numeral

namespace Value

theorem toNumber_of_value? {s : String} {v : Value} (h : Numeral.value? s = some v) :
    (Value.text s).toNumber = .ok v := by
  rw [toNumber, h]

theorem displayInt_inj {a b : Int64} (h : displayInt a = displayInt b) : a = b := by
  have value := Numeral.value?_displayInt b
  rw [← h, Numeral.value?_displayInt a] at value
  cases value
  rfl

end Value

/-- The case named by the selecting integer is run, if there is one. -/
theorem Block.runCase_displayInt (setting : Setting) (call : Call) (n : Int64)
    (cases : List (Int64 × List Node)) :
    runCase setting call (Value.displayInt n) (cases.map fun c => (Value.displayInt c.1, c.2)) =
      (cases.lookup n).map fun spec => nested setting (runAll setting call spec) := by
  induction cases with
  | nil => rfl
  | cons c rest ih =>
    obtain ⟨m, spec⟩ := c
    rw [List.map_cons, runCase]
    by_cases same : m = n
    · rw [if_pos (congrArg Value.displayInt same), same, List.lookup_cons_self, Option.map_some]
    · have other : (n == m) = false := beq_eq_false_iff_ne.mpr (Ne.symm same)
      rw [if_neg (mt Value.displayInt_inj same), ih, List.lookup_cons, other]

/-- A text reads as the integer that it shows, or as the number behind `0x` in any spelling, whatever
white space is around. So integers that show as one text are one, and a switch whose cases are named
by integers runs the case of the integer that selects. -/
theorem texts_read_back :
    (∀ (n : Int64) (before after : String), Text.Blank before → Text.Blank after →
      (Value.text (before ++ (Value.int n).display ++ after)).toNumber = .ok (.int n)) ∧
    (∀ (n : UInt64) (mark digits before after : String), mark ∈ Numeral.marks →
      Numeral.Spells 16 n.toNat digits.toList → Text.Blank before → Text.Blank after →
      (Value.text (before ++ (mark ++ digits) ++ after)).toNumber = .ok (.ofNat n.toNat)) ∧
    (∀ m n : Int64, (Value.int m).display = (Value.int n).display → m = n) ∧
    ∀ (setting : Setting) (call : Call) (n : Int64) (cases : List (Int64 × List Node)),
      Block.runCase setting call (Value.int n).display
          (cases.map fun c => ((Value.int c.1).display, c.2)) =
        (cases.lookup n).map fun spec => Block.nested setting (Block.runAll setting call spec) := by
  refine ⟨fun n before after hbefore hafter => ?_,
    fun n mark digits before after marked spelt hbefore hafter => ?_,
    fun m n => Value.displayInt_inj, Block.runCase_displayInt⟩
  · refine Value.toNumber_of_value? ((Numeral.value?_surrounded hbefore hafter _).trans ?_)
    exact Numeral.value?_displayInt n
  · refine Value.toNumber_of_value? ((Numeral.value?_surrounded hbefore hafter _).trans ?_)
    exact Numeral.value?_marked marked spelt

/-- The least integer between spaces of two kinds, and the greatest number of 64 bits with more
digits than it needs, which is a double. -/
theorem texts_read_back_extreme :
    (Value.text "\u2003-9223372036854775808\u00a0").toNumber = .ok (.int Int64.minValue) ∧
    (Value.text "\t0X000fFfFfFfFfFfFfFfF\n").toNumber = .ok (.float 18446744073709551616.0) := by
  obtain ⟨decimal, marked, -⟩ := texts_read_back
  have shown : (Value.int Int64.minValue).display = "-9223372036854775808" := rfl
  have least := decimal Int64.minValue "\u2003" "\u00a0" (by decide) (by decide)
  rw [shown] at least
  have digits : Numeral.Spells 16 (18446744073709551615 : UInt64).toNat
      "000fFfFfFfFfFfFfFfF".toList := @Numeral.Spells.intro 16 _ 3 "fFfFfFfFfFfFfFfF".toList rfl
  have greatest := marked 18446744073709551615 "0X" _ "\t" "\n" (.tail _ (.head _)) digits
    (by decide) (by decide)
  exact ⟨least, greatest⟩

end ByteSchema
