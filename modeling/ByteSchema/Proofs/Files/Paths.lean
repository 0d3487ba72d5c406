import ByteSchema.Proofs.Files.Access
import ByteSchema.Proofs.Text.Split

/-!
# Where paths lead

The path of a name in a directory leads to the name's location there, however the directory is
spelt. What is cut off for `bare` changes nothing about where a path leads, and making a directory
that is there changes no files.
-/

namespace ByteSchema

namespace FilePath

/-- What a path can name an entry of a directory by. -/
def IsName (name : String) : Prop := name ≠ "" ∧ name ≠ "." ∧ name ≠ ".." ∧ '/' ∉ name.toList

instance (name : String) : Decidable (IsName name) := inferInstanceAs (Decidable (_ ∧ _))

theorem IsName.within {name : String} (h : IsName name) (location : Location) :
    Files.within location name = location ++ [name] := by
  obtain ⟨notEmpty, notHere, notUp, -⟩ := h
  rw [Files.within, if_neg (not_or.mpr ⟨notEmpty, notHere⟩), if_neg notUp]

theorem IsName.segments {name : String} (h : IsName name) : segments name = [name] :=
  Text.map_splitOn_of_notMem h.2.2.2

/-- A slash parts a path. -/
theorem segments_append (before after : String) :
    segments (before ++ "/" ++ after) = segments before ++ segments after :=
  Text.map_splitOn_append before after

/-- The path of a directory with a slash behind it, if it has none. -/
theorem join_cases (directory name : String) : ∃ parent,
    join directory name = parent ++ "/" ++ name ∧
    (directory = parent ∨ directory = parent ++ "/" ++ "") := by
  unfold join
  split
  · next slash =>
    obtain ⟨parent, text⟩ := List.getLast?_eq_some_iff.mp slash
    have ends : directory = String.ofList parent ++ "/" := by
      rw [← String.toList_inj, text]
      simp
    exact ⟨String.ofList parent, by rw [ends], .inr (by rw [ends, String.append_empty])⟩
  · exact ⟨directory, rfl, .inl rfl⟩

theorem join_ne_empty (directory name : String) : join directory name ≠ "" := by
  obtain ⟨parent, joined, -⟩ := join_cases directory name
  rw [joined]
  intro empty
  simpa using congrArg String.toList empty

theorem fileName_join {name : String} (h : IsName name) (directory : String) :
    fileName (join directory name) = name := by
  obtain ⟨parent, joined, -⟩ := join_cases directory name
  rw [fileName, joined, segments_append, h.segments, List.getLastD_concat]

theorem isRooted_append {before : String} (h : before ≠ "") (after : String) :
    isRooted (before ++ after) = isRooted before := by
  have text : before.toList ≠ [] := fun empty => h (String.toList_inj.mp empty)
  obtain ⟨c, cs, text⟩ := List.exists_cons_of_ne_nil text
  rw [isRooted, isRooted, String.toList_append, text]
  rfl

end FilePath

namespace Files

open FilePath

variable {files : Files} {location other : Location} {path name : String} {names : List String}

/-- The end of a path, from where its beginning leads. -/
theorem foldlM_concat : (names ++ [name]).foldlM files.enter location = .ok other ↔
    ∃ directory, names.foldlM files.enter location = .ok directory ∧
      files.entryAt? directory = some .directory ∧ other = within directory name := by
  rw [List.foldlM_append]
  cases names.foldlM files.enter location with
  | error fault => exact ⟨nofun, fun ⟨_, wrong, _⟩ => nomatch wrong⟩
  | ok directory =>
    have last : ([name].foldlM files.enter directory : Except FileFault Location) =
        files.enter directory name := by
      rw [List.foldlM_cons]
      cases files.enter directory name <;> rfl
    have here : (Except.ok directory >>= [name].foldlM files.enter) = files.enter directory name :=
      last
    rw [here]
    constructor
    · intro h
      exact ⟨directory, rfl, enter_ok h⟩
    · rintro ⟨_, ⟨⟩, there, rfl⟩
      rw [enter, there]

theorem start_append {before : String} (h : before ≠ "") (after : String) :
    files.start (before ++ after) = files.start before := by
  rw [start, start, isRooted_append h]

/-- What is behind the last slash is looked for where the rest leads. -/
theorem locate_slash {parent : String} (single : segments name = [name]) :
    files.locate (parent ++ "/" ++ name) = .ok location ↔
      ∃ directory, (segments parent).foldlM files.enter (files.start (parent ++ "/")) =
          .ok directory ∧ files.entryAt? directory = some .directory ∧
        location = within directory name := by
  have rooted : files.start (parent ++ "/" ++ name) = files.start (parent ++ "/") :=
    start_append (fun empty => by simpa using congrArg String.toList empty) name
  rw [locate, rooted, segments_append, single, foldlM_concat]

/-- The path of a name in a directory leads to the name's location there. -/
theorem locate_join (hpath : path ≠ "") (hname : IsName name)
    (located : files.locate path = .ok location)
    (there : files.entryAt? location = some .directory) :
    files.locate (join path name) = .ok (location ++ [name]) := by
  obtain ⟨parent, joined, rfl | rfl⟩ := join_cases path name
  · rw [joined, locate_slash hname.segments, start_append hpath]
    exact ⟨location, located, there, (hname.within location).symm⟩
  · rw [joined, locate_slash hname.segments]
    obtain ⟨directory, leads, -, same⟩ := (locate_slash rfl).mp located
    have same : location = directory := same
    exact ⟨directory, leads, same ▸ there, same ▸ (hname.within location).symm⟩

/-! ### Directories that are there -/

/-- What is cut off leads nowhere. -/
theorem locate_bareReversed {cs : List Char} (h : cs ≠ [])
    (located : files.locate (String.ofList cs.reverse) = .ok location) :
    files.locate (String.ofList (bareReversed cs).reverse) = .ok location := by
  fun_induction bareReversed cs with
  | case1 => exact located
  | case2 rest alone ih =>
    have text : String.ofList ('/' :: rest).reverse = String.ofList rest.reverse ++ "/" ++ "" := by
      simp
    have inner : String.ofList rest.reverse ≠ "" := by simpa using alone
    rw [text] at located
    obtain ⟨directory, leads, -, same⟩ := (locate_slash rfl).mp located
    rw [start_append inner] at leads
    have same : location = directory := same
    exact ih alone (same ▸ leads)
  | case3 rest ih =>
    have text : String.ofList ('.' :: '/' :: rest).reverse =
        String.ofList rest.reverse ++ "/" ++ "." := by
      rw [← String.toList_inj]
      simp
    have kept : String.ofList ('/' :: rest).reverse = String.ofList rest.reverse ++ "/" ++ "" := by
      simp
    rw [text] at located
    refine ih (List.cons_ne_nil _ _) ?_
    obtain ⟨directory, leads, there, same⟩ := (locate_slash rfl).mp located
    rw [kept]
    exact (locate_slash rfl).mpr ⟨directory, leads, there, same⟩
  | case4 => exact located

theorem locate_bare (hpath : path ≠ "") (located : files.locate path = .ok location) :
    files.locate (bare path) = .ok location := by
  refine locate_bareReversed (fun empty => hpath ?_) (by simpa using located)
  simpa using empty

/-- A path that leads to a directory leads through directories. -/
theorem directory_of_foldlM (leads : names.foldlM files.enter location = .ok other)
    (there : files.entryAt? other = some .directory) :
    files.entryAt? location = some .directory := by
  cases names with
  | nil =>
    cases leads
    exact there
  | cons name rest =>
    rw [List.foldlM_cons] at leads
    obtain ⟨next, entered, -⟩ := bind_ok leads
    exact (enter_ok entered).1

theorem makeWithin_of_foldlM (made : Bool) (leads : names.foldlM files.enter location = .ok other)
    (there : files.entryAt? other = some .directory) :
    files.makeWithin made location names = (files, .ok ()) := by
  induction names generalizing location with
  | nil => rfl
  | cons name rest ih =>
    have directory := directory_of_foldlM leads there
    rw [List.foldlM_cons] at leads
    obtain ⟨next, entered, leads⟩ := bind_ok leads
    obtain ⟨-, rfl⟩ := enter_ok entered
    rw [makeWithin, directory_of_foldlM leads there]
    exact ih leads

/-- Making a directory that is there changes nothing. -/
theorem makeDirectory_of_locate (located : files.locate path = .ok location)
    (there : files.entryAt? location = some .directory) :
    files.makeDirectory path = (files, .ok ()) :=
  makeWithin_of_foldlM false located there

end Files

end ByteSchema
