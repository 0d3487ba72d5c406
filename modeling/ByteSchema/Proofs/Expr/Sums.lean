import ByteSchema.Expr.Functions
import ByteSchema.Proofs.Expr.Exact

/-!
# Sums of lists

A list sums up to the exact total of what its items count for, as long as the sums on the way have
64 bits. A key only says where in the items the summands are, and the bytes of a byte string are
summed as the integers that they are: `sums_of_lists`.
-/

namespace ByteSchema

open Word

/-- What an item adds to a sum. -/
inductive Counts : Value → Int → Prop
  | undefined : Counts .undefined 0
  | number {v : Value} {n : Int64} : v.toNumber = .ok (.int n) → Counts v n.toInt

namespace Operator

/-- Two integers make an integer where that fits, and a double otherwise. -/
theorem add_ints (a b : Int64) : Yields (Fits (a.toInt + b.toInt)) (a.toInt + b.toInt)
    (Binary64.ofInt64 a + Binary64.ofInt64 b) (add.apply (.int a) (.int b)) :=
  arithmetic_yields rfl rfl (fun m n => ofInt? (m + n)) (· + ·) (gives_ofInt? _)

/-- A double never becomes an integer again. -/
theorem add_float (x : Float) (b : Int64) :
    add.apply (.float x) (.int b) = .ok (.float (x + Binary64.ofInt64 b)) :=
  rfl

end Operator

namespace Function

theorem addTerm_of_toNumber {v w : Value} (total : Value) (h : v.toNumber = .ok w) :
    addTerm total v = Operator.add.apply total w := by
  cases v with
  | undefined => cases h
  | _ =>
    rw [addTerm, h]
    · rfl
    · nofun

theorem addTerm_int (total : Value) (n : Int64) :
    addTerm total (.int n) = Operator.add.apply total (.int n) :=
  addTerm_of_toNumber total rfl

/-! ### Items that count as integers -/

theorem addTerm_of_counts {v : Value} {n : Int} {total : Int64} (h : Counts v n)
    (fits : Fits (total.toInt + n)) :
    ∃ next : Int64, next.toInt = total.toInt + n ∧ addTerm (.int total) v = .ok (.int next) := by
  cases h with
  | undefined => exact ⟨total, (Int.add_zero _).symm, rfl⟩
  | @number _ m number =>
    rw [addTerm_of_toNumber _ number]
    exact (Operator.add_ints total m).int fits

/-- The sum of a list goes through the sums of its beginnings. -/
theorem sumTerms_of_counts {items : List Value} {amounts : List Int}
    (h : List.Forall₂ Counts items amounts) {total : Int64}
    (fits : ∀ front, front <+: amounts → Fits (total.toInt + front.sum)) :
    ∃ r : Int64, r.toInt = total.toInt + amounts.sum ∧
      sumTerms (.int total) items = .ok (.int r) := by
  induction h generalizing total with
  | nil => exact ⟨total, (Int.add_zero _).symm, rfl⟩
  | @cons v n items amounts first _ ih =>
    have here := fits [n] (List.prefix_cons_iff.mpr (.inr ⟨[], rfl, List.nil_prefix⟩))
    rw [List.sum_cons, List.sum_nil, Int.add_zero] at here
    obtain ⟨next, value, added⟩ := addTerm_of_counts first here
    have later : ∀ front, front <+: amounts → Fits (next.toInt + front.sum) := by
      intro front hfront
      have whole := fits (n :: front) (List.cons_prefix_cons.mpr ⟨rfl, hfront⟩)
      rwa [List.sum_cons, ← Int.add_assoc, ← value] at whole
    obtain ⟨r, sum, read⟩ := ih later
    refine ⟨r, ?_, ?_⟩
    · rw [sum, value, List.sum_cons, Int.add_assoc]
    · rw [sumTerms, added]
      exact read

theorem listSum_unkeyed (items : List Value) :
    listSum [.list items] = sumTerms (.int 0) items := by
  have all : items.map (summand none) = items := List.map_id items
  rw [listSum, sumKey, all]

theorem listSum_keyed (items : List Value) {key : Value} (keyed : key ≠ .undefined)
    (more : List Value) : listSum (.list items :: key :: more) =
      listSum [.list (items.map fun item => (item.getPath key.display).getD .undefined)] := by
  have path : sumKey (key :: more) = some key.display := by
    cases key with
    | undefined => exact absurd rfl keyed
    | _ => rfl
  rw [listSum_unkeyed, listSum, path]
  rfl

/-! ### Natural numbers -/

theorem addTerm_ofNat {m n : Nat} (h : m + n < 2 ^ 63) :
    addTerm (.int (Int64.ofNat m)) (.int (Int64.ofNat n)) = .ok (.int (Int64.ofNat (m + n))) := by
  have hm : (Int64.ofNat m).toInt = m := Int64.toInt_ofNat_of_lt (by omega)
  have hn : (Int64.ofNat n).toInt = n := Int64.toInt_ofNat_of_lt (by omega)
  have fits : Fits ((Int64.ofNat m).toInt + n) := by
    rw [hm]
    exact ⟨by omega, by omega⟩
  have counts : Counts (.int (Int64.ofNat n)) n := hn ▸ .number rfl
  obtain ⟨next, value, added⟩ := addTerm_of_counts counts fits
  have same : next.toInt = (Int64.ofNat (m + n)).toInt := by
    rw [value, hm, Int64.toInt_ofNat_of_lt h, Int.natCast_add]
  rw [added, Int64.toInt_inj.mp same]

theorem sumTerms_ofNat {ns : List Nat} {m : Nat} (h : m + ns.sum < 2 ^ 63) :
    sumTerms (.int (Int64.ofNat m)) (ns.map fun n => .int (Int64.ofNat n)) =
      .ok (.int (Int64.ofNat (m + ns.sum))) := by
  induction ns generalizing m with
  | nil => rfl
  | cons n ns ih =>
    rw [List.sum_cons] at h
    rw [List.map_cons, sumTerms, addTerm_ofNat (by omega), List.sum_cons, ← Nat.add_assoc,
      ← ih (by omega)]
    rfl

theorem sumTerms_float (x : Float) (ns : List Nat) :
    ∃ y, sumTerms (.float x) (ns.map fun n => .int (Int64.ofNat n)) = .ok (.float y) := by
  induction ns generalizing x with
  | nil => exact ⟨x, rfl⟩
  | cons n ns ih =>
    obtain ⟨y, sum⟩ := ih (x + Binary64.ofInt64 (Int64.ofNat n))
    refine ⟨y, Eq.trans ?_ sum⟩
    rw [List.map_cons, sumTerms, addTerm_int, Operator.add_float]
    rfl

/-- Past 64 bits a sum goes on as a double. -/
theorem sumTerms_overflow {ns : List Nat} {m : Nat} (hm : m < 2 ^ 63) (small : ∀ n ∈ ns, n < 2 ^ 63)
    (h : 2 ^ 63 ≤ m + ns.sum) :
    ∃ x, sumTerms (.int (Int64.ofNat m)) (ns.map fun n => .int (Int64.ofNat n)) =
      .ok (.float x) := by
  induction ns generalizing m with
  | nil => exact absurd h (Nat.not_le_of_lt hm)
  | cons n ns ih =>
    obtain ⟨hn, small⟩ := List.forall_mem_cons.mp small
    rw [List.sum_cons] at h
    rw [List.map_cons, sumTerms]
    by_cases fits : m + n < 2 ^ 63
    · rw [addTerm_ofNat fits]
      exact ih fits small (by omega)
    · have large : ¬ Fits ((Int64.ofNat m).toInt + (Int64.ofNat n).toInt) := by
        rw [Int64.toInt_ofNat_of_lt hm, Int64.toInt_ofNat_of_lt hn]
        exact fun h => absurd h.2 (by omega)
      rw [addTerm_int, (Operator.add_ints _ _).float large]
      exact sumTerms_float _ ns

/-! ### Bytes -/

/-- The bytes of a byte string as integers. -/
def ofBytes (data : List UInt8) : List Value := data.map fun b => .int (Int64.ofNat b.toNat)

def total (data : List UInt8) : Nat := (data.map UInt8.toNat).sum

theorem foldl_eq_total (data : List UInt8) (m : Nat) :
    data.foldl (fun n b => n + b.toNat) m = m + total data := by
  induction data generalizing m with
  | nil => rfl
  | cons b data ih => rw [List.foldl_cons, ih, total, total, List.map_cons, List.sum_cons, Nat.add_assoc]

theorem total_le (data : List UInt8) : total data ≤ 255 * data.length := by
  induction data with
  | nil => exact Nat.le_refl 0
  | cons b data ih =>
    have byte := b.toNat_lt
    rw [total] at *
    rw [List.map_cons, List.sum_cons, List.length_cons]
    omega

theorem listSum_bytes (data : List UInt8) (more : List Value) :
    listSum (.bytes data :: more) = .ok (.int (Int64.ofNat (total data))) := by
  rw [listSum, foldl_eq_total, Nat.zero_add]

/-- The bytes sum up to what the list of them does, unless that is no integer. -/
theorem listSum_ofBytes_iff (data : List UInt8) (more : List Value) :
    listSum (.bytes data :: more) = listSum [.list (ofBytes data)] ↔ Fits (total data) := by
  have items : ofBytes data = (data.map UInt8.toNat).map fun n => .int (Int64.ofNat n) := by
    rw [List.map_map]
    rfl
  rw [listSum_bytes, listSum_unkeyed, items]
  constructor
  · intro same
    refine Decidable.byContradiction fun large => ?_
    have bytes : ∀ n ∈ data.map UInt8.toNat, n < 2 ^ 63 := by
      intro n hn
      obtain ⟨b, -, rfl⟩ := List.mem_map.mp hn
      exact Nat.lt_trans b.toNat_lt (by decide)
    have past : 2 ^ 63 ≤ 0 + (data.map UInt8.toNat).sum := by
      unfold Fits total at large
      omega
    obtain ⟨x, sum⟩ := sumTerms_overflow (by decide) bytes past
    cases same.trans sum
  · intro fits
    have below : 0 + (data.map UInt8.toNat).sum < 2 ^ 63 := by
      unfold Fits total at fits
      omega
    have sum := sumTerms_ofNat below
    rw [Nat.zero_add] at sum
    exact sum.symm

end Function

/-- Items that count as integers sum up to their exact total if all sums on the way have 64 bits; a
key gives the sum of what it selects in the items; and a byte string is summed as the list of its
bytes. It would take more than `2 ^ 55` bytes, which is more than any memory holds, for the sum of a
byte string not to have 64 bits. -/
theorem sums_of_lists :
    Registry.builtins.get? "list::sum" = some Function.listSum ∧
    (∀ (items : List Value) (amounts : List Int), List.Forall₂ Counts items amounts →
      (∀ front, front <+: amounts → Fits front.sum) →
      ∃ r : Int64, r.toInt = amounts.sum ∧ Function.listSum [.list items] = .ok (.int r)) ∧
    (∀ (items : List Value) (key : Value) (more : List Value), key ≠ .undefined →
      Function.listSum (.list items :: key :: more) = Function.listSum
        [.list (items.map fun item => (item.getPath key.display).getD .undefined)]) ∧
    (∀ (data : List UInt8) (more : List Value), data.length ≤ 2 ^ 55 →
      Function.listSum (.bytes data :: more) = Function.listSum [.list (Function.ofBytes data)]) ∧
    ∀ (data : List UInt8) (more : List Value),
      Function.listSum (.bytes data :: more) = Function.listSum [.list (Function.ofBytes data)] ↔
        Fits (Function.total data) := by
  refine ⟨rfl, fun items amounts counts fits => ?_, fun items key more keyed =>
    Function.listSum_keyed items keyed more, fun data more short => ?_,
    Function.listSum_ofBytes_iff⟩
  · have fits' : ∀ front, front <+: amounts → Fits ((0 : Int64).toInt + front.sum) := by
      intro front hfront
      rw [Int64.toInt_zero, Int.zero_add]
      exact fits front hfront
    obtain ⟨r, value, sum⟩ := Function.sumTerms_of_counts counts fits'
    rw [Int64.toInt_zero, Int.zero_add] at value
    exact ⟨r, value, (Function.listSum_unkeyed items).trans sum⟩
  · have bound := Function.total_le data
    exact (Function.listSum_ofBytes_iff data more).mpr ⟨by omega, by omega⟩

/-- From one end of the integers to the other and back; a summand that is no number; and bytes. -/
theorem sums_of_lists_mixed :
    (∃ r : Int64, r.toInt = 16 ∧ Function.listSum [.list [.int Int64.maxValue, .undefined,
      .text "-9223372036854775808", .bool true, .text " 0x10"]] = .ok (.int r)) ∧
    Function.listSum [.list [.record [("n", .list [.int 3])], .text "n", .record [("n", .text "x")]],
      .text "n.0"] = .error (.coercion "\"x\"" "number") ∧
    Function.listSum [.bytes [255, 1], .text "n"] = .ok (.int 256) := by
  obtain ⟨-, items, keyed, bytes, -⟩ := sums_of_lists
  have counts : List.Forall₂ Counts [.int Int64.maxValue, .undefined,
      .text "-9223372036854775808", .bool true, .text " 0x10"]
      [Int64.maxValue.toInt, 0, Int64.minValue.toInt, (1 : Int64).toInt, (16 : Int64).toInt] :=
    .cons (.number rfl) (.cons .undefined (.cons (.number rfl) (.cons (.number rfl)
      (.cons (.number rfl) .nil))))
  have fits : ∀ k ≤ 5, Fits ([Int64.maxValue.toInt, 0, Int64.minValue.toInt, (1 : Int64).toInt,
      (16 : Int64).toInt].take k).sum := by decide
  refine ⟨items _ _ counts fun front hfront => ?_, ?_, ?_⟩
  · rw [List.prefix_iff_eq_take.mp hfront]
    exact fits front.length hfront.length_le
  · exact keyed _ (.text "n.0") [] nofun
  · exact bytes [255, 1] [.text "n"] (by decide)

end ByteSchema
