import ByteSchema.Text.Split

/-!
# Texts between separators

A separator between two texts parts what they split into. Cutting at the first separator alone gives
the first of the texts, and what the others are split from.
-/

namespace ByteSchema.Text

variable {separator : Char}

theorem splitOn_ne_nil (cs : List Char) : splitOn separator cs ≠ [] := by
  cases cs with
  | nil => exact List.cons_ne_nil _ _
  | cons c cs =>
    unfold splitOn
    split
    · exact List.cons_ne_nil _ _
    · split <;> exact List.cons_ne_nil _ _

theorem splitOn_of_notMem {cs : List Char} (h : separator ∉ cs) : splitOn separator cs = [cs] := by
  induction cs with
  | nil => rfl
  | cons c cs ih =>
    obtain ⟨ne, h⟩ := not_or.mp (mt List.mem_cons.mpr h)
    rw [splitOn, if_neg (Ne.symm ne), ih h]

theorem splitOn_append (before after : List Char) :
    splitOn separator (before ++ separator :: after) =
      splitOn separator before ++ splitOn separator after := by
  induction before with
  | nil => exact if_pos rfl
  | cons c cs ih =>
    rw [List.cons_append, splitOn, splitOn, ih]
    split
    · rfl
    · cases h : splitOn separator cs with
      | nil => exact absurd h (splitOn_ne_nil cs)
      | cons first rest => rfl

theorem map_splitOn_of_notMem {s : String} (h : separator ∉ s.toList) :
    (splitOn separator s.toList).map String.ofList = [s] := by
  rw [splitOn_of_notMem h, List.map_singleton, String.ofList_toList]

theorem map_splitOn_append (before after : String) :
    (splitOn separator (before ++ String.singleton separator ++ after).toList).map String.ofList =
      (splitOn separator before.toList).map String.ofList ++
        (splitOn separator after.toList).map String.ofList := by
  have text : (before ++ String.singleton separator ++ after).toList =
      before.toList ++ separator :: after.toList := by simp
  rw [text, splitOn_append, List.map_append]

theorem splitOnce_of_notMem {cs : List Char} (h : separator ∉ cs) :
    splitOnce separator cs = (cs, none) := by
  induction cs with
  | nil => rfl
  | cons c cs ih =>
    obtain ⟨ne, h⟩ := not_or.mp (mt List.mem_cons.mpr h)
    rw [splitOnce, if_neg (Ne.symm ne), ih h]

theorem splitOn_eq_cons (cs : List Char) : splitOn separator cs =
    (splitOnce separator cs).1 ::
      ((splitOnce separator cs).2.map (splitOn separator)).getD [] := by
  induction cs with
  | nil => rfl
  | cons c cs ih =>
    rw [splitOn, splitOnce]
    split
    · rfl
    · rw [ih]

end ByteSchema.Text
