import ByteSchema.Proofs.Files.Paths

/-!
# The files below a directory

`walk` lists them as they are come by: the names of a directory are sorted, and what lies in a
directory stands in its place. In files that are `Sound` the walk has every file below once
(`mem_walk`, `nodup_walk`), under a path that leads to it (`read_walk`).
-/

namespace ByteSchema

/-- A file that was come by, and the path that it was come by on. -/
structure Found where
  path : String
  directory : Location
  name : String
  data : List UInt8
  deriving DecidableEq

def Found.location (f : Found) : Location := f.directory ++ [f.name]

namespace Files

open FilePath

variable {files : Files} {location inner : Location} {path name : String} {data : List UInt8}

/-- Down to `levels` directories. -/
def walkWithin (files : Files) : Nat → String → Location → List Found
  | 0, _, _ => []
  | levels + 1, path, location =>
    (files.names location).flatMap fun name =>
      match files.entryAt? (location ++ [name]) with
      | some .directory => walkWithin files levels (join path name) (location ++ [name])
      | some (.file data) => [⟨join path name, location, name, data⟩]
      | none => []

/-- The files below the directory that a path leads to. -/
def walk (files : Files) (path : String) : List Found :=
  match files.locate path with
  | .ok location => files.walkWithin (files.height + 1) path location
  | .error _ => []

/-- Everything has one place, a name that a path can spell, and a directory to be in. -/
structure Sound (files : Files) : Prop where
  once : (files.entries.map Prod.fst).Nodup
  named : ∀ entry ∈ files.entries, ∀ name ∈ entry.1, IsName name
  inside : ∀ entry ∈ files.entries, files.entryAt? entry.1.dropLast = some .directory

instance (files : Files) : Decidable files.Sound :=
  decidable_of_iff
    ((files.entries.map Prod.fst).Nodup ∧ (∀ entry ∈ files.entries, ∀ name ∈ entry.1, IsName name) ∧
      ∀ entry ∈ files.entries, files.entryAt? entry.1.dropLast = some .directory)
    ⟨fun h => ⟨h.1, h.2.1, h.2.2⟩, fun h => ⟨h.once, h.named, h.inside⟩⟩

/-! ### Names in a directory -/

theorem nameWithin_eq_some {directory : Location} :
    nameWithin directory location = some name ↔ location = directory ++ [name] := by
  induction directory generalizing location with
  | nil =>
    match location with
    | [] => exact ⟨nofun, nofun⟩
    | [other] => simp [nameWithin]
    | a :: b :: rest => exact ⟨nofun, fun wrong => by cases wrong⟩
  | cons a directory ih =>
    match location with
    | [] => exact ⟨nofun, nofun⟩
    | b :: location =>
      rw [nameWithin]
      split
      · next same => rw [ih, same, List.cons_append, List.cons_inj_right]
      · next different =>
        refine ⟨nofun, fun same => absurd ?_ different⟩
        exact (List.cons.inj same).1.symm

theorem mem_of_entryAt? {entry : Entry} (h : files.entryAt? location = some entry)
    (below : location ≠ []) : (location, entry) ∈ files.entries := by
  rw [entryAt?_of_ne_nil below] at h
  exact Table.mem_of_lookup h

theorem isSome_entryAt? (below : location ≠ []) :
    (files.entryAt? location).isSome ↔ location ∈ files.entries.map Prod.fst := by
  rw [entryAt?_of_ne_nil below]
  exact Table.lookup_isSome

theorem insertSorted_perm (name : String) (names : List String) :
    (Text.insertSorted name names).Perm (name :: names) := by
  induction names with
  | nil => exact .refl _
  | cons other names ih =>
    unfold Text.insertSorted
    split
    · exact .refl _
    · exact (ih.cons other).trans (.swap name other names)

theorem sorted_perm (names : List String) : (Text.sorted names).Perm names := by
  induction names with
  | nil => exact .refl _
  | cons name names ih => exact (insertSorted_perm name _).trans (ih.cons name)

theorem mem_names : name ∈ files.names location ↔
    (files.entryAt? (location ++ [name])).isSome := by
  rw [isSome_entryAt? (List.append_ne_nil_of_right_ne_nil _ (List.cons_ne_nil _ _)), names,
    (sorted_perm _).mem_iff, List.mem_filterMap, List.mem_map]
  simp only [nameWithin_eq_some]

theorem entryAt?_of_names_eq_nil (empty : files.names location = []) (name : String) :
    files.entryAt? (location ++ [name]) = none := by
  rw [← Option.not_isSome_iff_eq_none, ← mem_names, empty]
  exact List.not_mem_nil

theorem nodup_names (once : (files.entries.map Prod.fst).Nodup) (location : Location) :
    (files.names location).Nodup := by
  rw [names, (sorted_perm _).nodup_iff, List.nodup_iff_pairwise_ne, List.pairwise_filterMap]
  rw [List.nodup_iff_pairwise_ne, List.pairwise_map] at once
  refine once.imp fun {one other} different name hname name' hname' same => different ?_
  rw [nameWithin_eq_some.mp hname, nameWithin_eq_some.mp hname', same]

/-- What is put elsewhere is not among the names of a directory. -/
theorem names_put (entry : Entry) (elsewhere : ∀ name, location ≠ inner ++ [name]) :
    (files.put location entry).names inner = files.names inner := by
  have unnamed : nameWithin inner location = none :=
    Option.eq_none_iff_forall_ne_some.mpr fun name h => elsewhere name (nameWithin_eq_some.mp h)
  unfold names put
  congr 1
  induction files.entries with
  | nil => simp [Table.insert, unnamed]
  | cons first rest ih =>
    obtain ⟨key, old⟩ := first
    unfold Table.insert
    split
    · next same => simp [same, unnamed]
    · rw [List.filterMap_cons, List.filterMap_cons, ih]

theorem Sound.isName (sound : files.Sound) (there : (files.entryAt? (location ++ [name])).isSome) :
    IsName name := by
  obtain ⟨entry, there⟩ := Option.isSome_iff_exists.mp there
  have listed := mem_of_entryAt? there (List.append_ne_nil_of_right_ne_nil _ (List.cons_ne_nil _ _))
  exact sound.named _ listed name (List.mem_append_right _ (List.mem_singleton.mpr rfl))

theorem Sound.parent (sound : files.Sound) (there : (files.entryAt? (location ++ [name])).isSome) :
    files.entryAt? location = some .directory := by
  obtain ⟨entry, there⟩ := Option.isSome_iff_exists.mp there
  have listed := mem_of_entryAt? there (List.append_ne_nil_of_right_ne_nil _ (List.cons_ne_nil _ _))
  have inside := sound.inside _ listed
  rwa [List.dropLast_concat] at inside

/-- What has something below it is a directory. -/
theorem Sound.ancestor (sound : files.Sound) {rest : Location} (below : rest ≠ [])
    (there : (files.entryAt? (location ++ rest)).isSome) :
    files.entryAt? location = some .directory := by
  induction rest generalizing location with
  | nil => exact absurd rfl below
  | cons name rest ih =>
    cases rest with
    | nil => exact sound.parent there
    | cons next rest =>
      rw [List.append_cons] at there
      have inner := ih (List.cons_ne_nil next rest) there
      exact sound.parent (by rw [inner]; rfl)

/-- Nothing lies deeper than the height. -/
theorem length_le_height (there : (files.entryAt? location).isSome) :
    location.length ≤ files.height := by
  have bound (entries : List (Location × Entry)) (n : Nat) :
      n ≤ entries.foldl (fun n entry => max n entry.1.length) n ∧
        ∀ entry ∈ entries, entry.1.length ≤
          entries.foldl (fun n entry => max n entry.1.length) n := by
    induction entries generalizing n with
    | nil => exact ⟨Nat.le_refl _, List.forall_mem_nil _⟩
    | cons entry entries ih =>
      obtain ⟨start, rest⟩ := ih (max n entry.1.length)
      rw [List.foldl_cons]
      exact ⟨Nat.le_trans (Nat.le_max_left ..) start,
        List.forall_mem_cons.mpr ⟨Nat.le_trans (Nat.le_max_right ..) start, rest⟩⟩
  by_cases below : location = []
  · rw [below]
    exact Nat.zero_le _
  · obtain ⟨entry, there⟩ := Option.isSome_iff_exists.mp there
    exact (bound files.entries 0).2 _ (mem_of_entryAt? there below)

/-! ### What a walk comes by -/

theorem mem_walkWithin_succ {levels : Nat} {f : Found} :
    f ∈ files.walkWithin (levels + 1) path location ↔
      ∃ name, (files.entryAt? (location ++ [name]) = some .directory ∧
          f ∈ files.walkWithin levels (join path name) (location ++ [name])) ∨
        ∃ data, files.entryAt? (location ++ [name]) = some (.file data) ∧
          f = ⟨join path name, location, name, data⟩ := by
  simp only [walkWithin, List.mem_flatMap]
  constructor
  · rintro ⟨name, -, hf⟩
    refine ⟨name, ?_⟩
    split at hf
    · next there => exact .inl ⟨there, hf⟩
    · next data there => exact .inr ⟨data, there, List.mem_singleton.mp hf⟩
    · cases hf
  · rintro ⟨name, ⟨there, hf⟩ | ⟨data, there, rfl⟩⟩
    · refine ⟨name, mem_names.mpr (by rw [there]; rfl), ?_⟩
      rw [there]
      exact hf
    · refine ⟨name, mem_names.mpr (by rw [there]; rfl), ?_⟩
      rw [there]
      exact List.mem_singleton.mpr rfl

theorem entryAt?_of_mem_walkWithin {levels : Nat} {f : Found}
    (h : f ∈ files.walkWithin levels path location) :
    location <+: f.directory ∧ files.entryAt? f.location = some (.file f.data) := by
  induction levels generalizing path location with
  | zero => cases h
  | succ levels ih =>
    obtain ⟨name, ⟨-, hf⟩ | ⟨data, there, rfl⟩⟩ := mem_walkWithin_succ.mp h
    · obtain ⟨inside, there⟩ := ih hf
      exact ⟨(List.prefix_append _ _).trans inside, there⟩
    · exact ⟨List.prefix_rfl, there⟩

/-- Every file below is come by. -/
theorem exists_mem_walkWithin (sound : files.Sound) {levels : Nat} {rest : Location}
    (below : rest ≠ []) (few : rest.length ≤ levels)
    (there : files.entryAt? (location ++ rest) = some (.file data)) :
    ∃ f ∈ files.walkWithin levels path location, f.location = location ++ rest ∧ f.data = data := by
  induction rest generalizing levels path location with
  | nil => exact absurd rfl below
  | cons name rest ih =>
    obtain ⟨levels, rfl⟩ : ∃ n, levels = n + 1 := ⟨levels - 1, by simp at few; omega⟩
    cases rest with
    | nil =>
      exact ⟨⟨join path name, location, name, data⟩,
        mem_walkWithin_succ.mpr ⟨name, .inr ⟨data, there, rfl⟩⟩, rfl, rfl⟩
    | cons next rest =>
      rw [List.append_cons] at there
      have directory : files.entryAt? (location ++ [name]) = some .directory :=
        sound.ancestor (List.cons_ne_nil next rest) (by rw [there]; rfl)
      obtain ⟨f, hf, found⟩ := ih (List.cons_ne_nil _ _) (Nat.le_of_succ_le_succ few) there
      rw [← List.append_cons] at found
      exact ⟨f, mem_walkWithin_succ.mpr ⟨name, .inl ⟨directory, hf⟩⟩, found⟩

/-- A walk comes by its files on paths that lead to them. -/
theorem locate_of_mem_walkWithin (sound : files.Sound) {levels : Nat} {f : Found}
    (hpath : path ≠ "") (located : files.locate path = .ok location)
    (there : files.entryAt? location = some .directory)
    (h : f ∈ files.walkWithin levels path location) :
    files.locate f.path = .ok f.location ∧ fileName f.path = f.name := by
  induction levels generalizing path location with
  | zero => cases h
  | succ levels ih =>
    obtain ⟨name, ⟨inner, hf⟩ | ⟨data, inner, rfl⟩⟩ := mem_walkWithin_succ.mp h
    · have hname := sound.isName (by rw [inner]; rfl)
      exact ih (join_ne_empty path name) (locate_join hpath hname located there) inner hf
    · have hname := sound.isName (by rw [inner]; rfl)
      exact ⟨locate_join hpath hname located there, fileName_join hname path⟩

/-- What the walk comes by for a name in a directory. -/
theorem location_of_mem_named {levels : Nat} {f : Found}
    (h : f ∈ (match files.entryAt? (location ++ [name]) with
      | some .directory => files.walkWithin levels path (location ++ [name])
      | some (.file data) => [⟨path, location, name, data⟩]
      | none => [])) : location ++ [name] <+: f.location := by
  split at h
  · exact (entryAt?_of_mem_walkWithin h).1.trans (List.prefix_append _ _)
  · rw [List.mem_singleton.mp h]
    exact List.prefix_rfl
  · cases h

/-- Nothing is come by twice. -/
theorem nodup_walkWithin (sound : files.Sound) (levels : Nat) (path : String)
    (location : Location) : ((files.walkWithin levels path location).map Found.location).Nodup := by
  induction levels generalizing path location with
  | zero => exact List.nodup_nil
  | succ levels ih =>
    rw [walkWithin, List.map_flatMap, List.nodup_iff_pairwise_ne, List.pairwise_flatMap]
    constructor
    · intro name _
      rw [← List.nodup_iff_pairwise_ne]
      split
      · exact ih _ _
      · exact List.pairwise_singleton _ _
      · exact List.nodup_nil
    · refine (nodup_names sound.once location).imp fun {name other} different => ?_
      intro x hx y hy same
      obtain ⟨f, hf, rfl⟩ := List.mem_map.mp hx
      obtain ⟨g, hg, rfl⟩ := List.mem_map.mp hy
      -- both names are the next part of one location
      have one := List.prefix_iff_eq_take.mp (location_of_mem_named hf)
      have two := List.prefix_iff_eq_take.mp (location_of_mem_named hg)
      rw [← same, List.length_append, List.length_singleton] at two
      rw [List.length_append, List.length_singleton, ← two] at one
      exact different (List.head_eq_of_cons_eq (List.append_cancel_left one))

theorem names_eq_nil (deep : files.height ≤ location.length) : files.names location = [] := by
  refine List.eq_nil_iff_forall_not_mem.mpr fun name hname => ?_
  have few := length_le_height (mem_names.mp hname)
  rw [List.length_append, List.length_singleton] at few
  omega

/-- More levels than directories can nest make no difference. -/
theorem walkWithin_congr {levels levels' : Nat} (enough : files.height < location.length + levels)
    (enough' : files.height < location.length + levels') :
    files.walkWithin levels path location = files.walkWithin levels' path location := by
  induction levels generalizing levels' path location with
  | zero =>
    cases levels' with
    | zero => rfl
    | succ levels' =>
      rw [walkWithin, walkWithin, names_eq_nil (Nat.le_of_lt enough), List.flatMap_nil]
  | succ levels ih =>
    cases levels' with
    | zero => rw [walkWithin, walkWithin, names_eq_nil (Nat.le_of_lt enough'), List.flatMap_nil]
    | succ levels' =>
      rw [walkWithin, walkWithin]
      have same (name : String) : files.walkWithin levels (join path name) (location ++ [name]) =
          files.walkWithin levels' (join path name) (location ++ [name]) := by
        refine ih ?_ ?_ <;> simp <;> omega
      simp only [same]

/-! ### The whole walk -/

theorem find?_eq_some {entry : Entry} : files.find? path = some entry ↔
    ∃ location, files.locate path = .ok location ∧ files.entryAt? location = some entry := by
  unfold find?
  cases files.locate path with
  | error fault => exact ⟨nofun, fun ⟨_, wrong, _⟩ => nomatch wrong⟩
  | ok location =>
    constructor
    · intro there
      exact ⟨location, rfl, there⟩
    · rintro ⟨_, ⟨⟩, there⟩
      exact there

theorem walk_of_locate (located : files.locate path = .ok location) :
    files.walk path = files.walkWithin (files.height + 1) path location := by
  rw [walk, located]

/-- A walk comes by the files below the directory, with what they hold. -/
theorem mem_walk (sound : files.Sound) (located : files.locate path = .ok location)
    (there : files.entryAt? location = some .directory) {place : Location} :
    (∃ f ∈ files.walk path, f.location = place ∧ f.data = data) ↔
      location <+: place ∧ files.entryAt? place = some (.file data) := by
  rw [walk_of_locate located]
  constructor
  · rintro ⟨f, hf, rfl, rfl⟩
    obtain ⟨below, holds⟩ := entryAt?_of_mem_walkWithin hf
    exact ⟨below.trans (List.prefix_append _ _), holds⟩
  · rintro ⟨⟨rest, rfl⟩, holds⟩
    have below : rest ≠ [] := by
      rintro rfl
      rw [List.append_nil, there] at holds
      cases holds
    have few := length_le_height (by rw [holds]; rfl)
    rw [List.length_append] at few
    exact exists_mem_walkWithin sound below (by omega) holds

/-- A walk comes by no file twice. -/
theorem nodup_walk (sound : files.Sound) (path : String) :
    ((files.walk path).map Found.location).Nodup := by
  unfold walk
  split
  · exact nodup_walkWithin sound _ _ _
  · exact List.nodup_nil

theorem isName_of_mem_walk (sound : files.Sound) {f : Found} (h : f ∈ files.walk path) :
    IsName f.name := by
  unfold walk at h
  split at h
  · have there : (files.entryAt? (f.directory ++ [f.name])).isSome := by
      rw [← Found.location, (entryAt?_of_mem_walkWithin h).2]
      rfl
    exact sound.isName there
  · cases h

/-- The paths of a walk lead to its files. -/
theorem read_walk (sound : files.Sound) (hpath : path ≠ "")
    (there : files.find? path = some .directory) {f : Found} (h : f ∈ files.walk path) :
    files.locate f.path = .ok f.location ∧ files.read f.path = .ok f.data ∧
      fileName f.path = f.name := by
  obtain ⟨location, located, there⟩ := find?_eq_some.mp there
  rw [walk_of_locate located] at h
  obtain ⟨leads, named⟩ := locate_of_mem_walkWithin sound hpath located there h
  exact ⟨leads, read_of_locate leads (entryAt?_of_mem_walkWithin h).2, named⟩

end Files

end ByteSchema
