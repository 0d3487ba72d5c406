import ByteSchema.Files.Access
import ByteSchema.Proofs.Decode.Ends
import ByteSchema.Proofs.Value.Record

/-!
# What changes in a file tree

Making directories puts them only where nothing was. A write gives contents to one location and
leaves all others. Neither touches a directory that is there, so a path leads where it led before.
-/

namespace ByteSchema

namespace Files

variable {files before between after : Files} {location other : Location} {path text : String}

theorem entryAt?_root : files.entryAt? [] = some .directory := rfl

theorem entryAt?_of_ne_nil (h : location ≠ []) :
    files.entryAt? location = files.entries.lookup location :=
  if_neg h

theorem entryAt?_put_self (entry : Entry) (h : location ≠ []) :
    (files.put location entry).entryAt? location = some entry := by
  rw [entryAt?_of_ne_nil h]
  exact Table.lookup_insert_self files.entries location entry

theorem entryAt?_put_of_ne (entry : Entry) (h : other ≠ location) :
    (files.put location entry).entryAt? other = files.entryAt? other := by
  by_cases root : other = []
  · rw [root, entryAt?_root, entryAt?_root]
  · rw [entryAt?_of_ne_nil root, entryAt?_of_ne_nil root]
    exact Table.lookup_insert_of_ne files.entries entry h

/-! ### Directories that are made -/

/-- There are as many directories as before or more, and otherwise the same. -/
structure Made (before after : Files) : Prop where
  here : after.here = before.here
  entries (location : Location) : after.entryAt? location = before.entryAt? location ∨
    before.entryAt? location = none ∧ after.entryAt? location = some .directory

theorem Made.refl (files : Files) : Made files files := ⟨rfl, fun _ => .inl rfl⟩

theorem Made.trans (h : Made before between) (h' : Made between after) : Made before after := by
  refine ⟨h'.here.trans h.here, fun location => ?_⟩
  obtain first | ⟨free, made⟩ := h.entries location
  · obtain second | ⟨free, made⟩ := h'.entries location
    · exact .inl (second.trans first)
    · exact .inr ⟨first ▸ free, made⟩
  · obtain second | ⟨taken, -⟩ := h'.entries location
    · exact .inr ⟨free, second.trans made⟩
    · rw [made] at taken
      cases taken

theorem Made.kept (h : Made before after) {entry : Entry}
    (there : before.entryAt? location = some entry) : after.entryAt? location = some entry := by
  obtain same | ⟨free, -⟩ := h.entries location
  · exact same.trans there
  · rw [free] at there
    cases there

theorem Made.of_put (free : files.entryAt? location = none) :
    Made files (files.put location .directory) := by
  have inside : location ≠ [] := by
    intro root
    rw [root] at free
    cases free
  refine ⟨rfl, fun other => ?_⟩
  by_cases h : other = location
  · rw [h]
    exact .inr ⟨free, entryAt?_put_self _ inside⟩
  · exact .inl (entryAt?_put_of_ne _ h)

theorem makeWithin_made (files : Files) (made : Bool) (location : Location) (names : List String) :
    Made files (files.makeWithin made location names).1 := by
  induction names generalizing files made location with
  | nil => exact .refl files
  | cons name rest ih =>
    unfold makeWithin
    dsimp only
    split
    · exact ih files made _
    · exact .refl files
    · next free => exact (Made.of_put free).trans (ih _ true _)

theorem makeDirectory_made (files : Files) (path : String) :
    Made files (files.makeDirectory path).1 :=
  makeWithin_made ..

/-! ### Paths -/

theorem enter_ok {name : String} (h : files.enter location name = .ok other) :
    files.entryAt? location = some .directory ∧ other = within location name := by
  unfold enter at h
  split at h
  · next there =>
    cases h
    exact ⟨there, rfl⟩
  · cases h
  · cases h

theorem foldlM_enter {names : List String}
    (kept : ∀ location, before.entryAt? location = some .directory →
      after.entryAt? location = some .directory)
    (h : names.foldlM before.enter location = .ok other) :
    names.foldlM after.enter location = .ok other := by
  induction names generalizing location with
  | nil => exact h
  | cons name rest ih =>
    rw [List.foldlM_cons] at h ⊢
    obtain ⟨next, entered, h⟩ := bind_ok h
    obtain ⟨there, rfl⟩ := enter_ok entered
    have again : after.enter location name = .ok (within location name) := by
      rw [enter, kept location there]
    rw [again]
    exact ih h

/-- Where the directories of a path stay, it leads to the same place. -/
theorem locate_of_kept (here : after.here = before.here)
    (kept : ∀ location, before.entryAt? location = some .directory →
      after.entryAt? location = some .directory)
    (h : before.locate path = .ok location) : after.locate path = .ok location := by
  have start : after.start path = before.start path := by rw [Files.start, here, Files.start]
  rw [locate, start]
  exact foldlM_enter kept h

theorem find?_of_locate (h : files.locate path = .ok location) :
    files.find? path = files.entryAt? location := by
  rw [find?, h]

theorem read_of_locate {data : List UInt8} (located : files.locate path = .ok location)
    (there : files.entryAt? location = some (.file data)) : files.read path = .ok data := by
  simp only [read, located, bind, Except.bind, there]
  rfl

theorem write_ok (h : files.write path text = .ok after) : ∃ location,
    files.locate path = .ok location ∧ files.entryAt? location ≠ some .directory ∧
      after = files.put location (.file (encode text)) := by
  unfold write at h
  obtain ⟨location, located, h⟩ := bind_ok h
  split at h
  · cases h
  · next free =>
    cases h
    exact ⟨location, located, free, rfl⟩

theorem write_of_locate (located : files.locate path = .ok location)
    (free : files.entryAt? location ≠ some .directory) :
    files.write path text = .ok (files.put location (.file (encode text))) := by
  simp only [write, located, bind, Except.bind]
  rfl

end Files

end ByteSchema
