import ByteSchema.Proofs.Command.Outputs
import ByteSchema.Proofs.Command.Scanning
import Mathlib.Data.List.Dedup

/-!
# Where the records of a directory are found afterwards

A record goes to a file named after its input, whatever directory the input lies in. Of inputs with
one name the first is kept, or with force the last: `directory_files`. So there are as many files as
records just if no two inputs share a name, and `colliding` is a tree where two do.
-/

namespace ByteSchema.Command

open ByteSchema.Files ByteSchema.FilePath

variable {options : Options} {schema : Schema} {files before between after : Files}
  {force : Bool} {path directory name content : String} {root place location : Location}
  {outputs : List Output} {o : Output} {f : Found} {fs : List Found}

/-- The records of the files of a walk, and the places that they go to. -/
def Options.due (options : Options) (schema : Schema) (place : Location) (fs : List Found) :
    List Output :=
  fs.filterMap fun f => (options.recordOf? schema f).map fun record =>
    ⟨f.path, record, place ++ [f.name ++ ".json"]⟩

/-- The output that a place is left with. -/
def winner? (force : Bool) (outputs : List Output) (location : Location) : Option Output :=
  (if force then outputs.reverse else outputs).find? fun o => o.location = location

theorem winner?_isSome (force : Bool) : (winner? force outputs location).isSome ↔
    location ∈ outputs.map Output.location := by
  cases force <;> simp [winner?]

theorem winner?_concat : winner? force (outputs ++ [o]) location =
    if o.location = location then
      if force then some o else (winner? force outputs location).or (some o)
    else winner? force outputs location := by
  cases force <;> by_cases same : o.location = location <;>
    simp [winner?, List.find?_append, same]

theorem winner?_of_nodup (single : (outputs.map Output.location).Nodup) (ho : o ∈ outputs) :
    winner? force outputs o.location = some o := by
  have there : (winner? force outputs o.location).isSome :=
    (winner?_isSome force).mpr (List.mem_map_of_mem ho)
  obtain ⟨w, found⟩ := Option.isSome_iff_exists.mp there
  have same : w.location = o.location := by simpa using List.find?_some found
  have hw : w ∈ outputs := by
    have listed := List.mem_of_find?_eq_some found
    cases force <;> simpa using listed
  rw [found, List.inj_on_of_nodup_map single hw ho same]

/-! ### One file -/

/-- A file of its own name is written, or kept if it is there and may not be overwritten. -/
def settle (options : Options) (files : Files) (o : Output) : Files :=
  if (files.entryAt? o.location).isSome && !options.force then files
  else files.put o.location (.file (o.data options.format))

theorem json_isName (h : IsName name) : IsName (name ++ ".json") := by
  have text : (name ++ ".json").toList = name.toList ++ ".json".toList := String.toList_append
  have long (other : String) (short : other.toList.length < 5) : name ++ ".json" ≠ other := by
    rintro rfl
    have five : ".json".toList.length = 5 := rfl
    rw [text, List.length_append] at short
    omega
  refine ⟨long "" (by decide), long "." (by decide), long ".." (by decide), ?_⟩
  rw [text, List.mem_append]
  rintro (slash | slash)
  · exact h.2.2.2 slash
  · revert slash
    decide

/-- In a directory that is there, what is stored is settled. -/
theorem store_settles (hdirectory : directory ≠ "") (located : files.locate directory = .ok place)
    (there : files.entryAt? place = some .directory) (hname : IsName (fileName o.input))
    (hplace : o.location = place ++ [fileName o.input ++ ".json"])
    (free : files.entryAt? o.location ≠ some .directory) :
    ∃ stored, store files options.force directory (target directory o.input)
      (render options.format o.record) = (settle options files o, stored) := by
  have prepared : files.makeDirectory (bare directory) = (files, .ok ()) :=
    makeDirectory_of_locate (locate_bare hdirectory located) there
  have leads : files.locate (target directory o.input) = .ok o.location := by
    rw [hplace]
    exact locate_join hdirectory (json_isName hname) located there
  unfold store create settle
  simp only [prepared, find?_of_locate leads]
  by_cases taken : ((files.entryAt? o.location).isSome && !options.force) = true
  · simp only [if_pos taken]
    exact ⟨_, rfl⟩
  · simp only [if_neg taken, write_of_locate leads free, Except.mapError]
    exact ⟨_, rfl⟩

theorem save_settles {s t : Progress} {stored : Except Failure Unit}
    (h : store s.files options.force directory path content = (after, stored))
    (saved : Session.save options directory path content s = .ok () t) : t.files = after := by
  have read : Session.files s = .ok s.files s := rfl
  unfold Session.save at saved
  simp only [run_bind, read, h] at saved
  cases stored <;> cases saved <;> rfl

/-! ### All files -/

/-- What is where after some outputs: what won the place, or else what was there before. -/
structure Filed (options : Options) (before : Files) (outputs : List Output)
    (after : Files) : Prop where
  once : (after.entries.map Prod.fst).Nodup
  entries (location : Location) : after.entryAt? location =
    ((winner? options.force outputs location).map fun o => Entry.file (o.data options.format)).or
      (before.entryAt? location)

theorem Filed.nil (sound : files.Sound) : Filed options files [] files := by
  refine ⟨sound.once, fun location => ?_⟩
  simp [winner?]

theorem Filed.concat (h : Filed options before outputs between)
    (fresh : before.entryAt? o.location = none) :
    Filed options before (outputs ++ [o]) (settle options between o) := by
  have inside : o.location ≠ [] := by
    intro root
    rw [root] at fresh
    cases fresh
  have held := h.entries o.location
  rw [fresh, Option.or_none] at held
  unfold settle
  split
  · next kept =>
    simp only [Bool.and_eq_true, Bool.not_eq_true'] at kept
    obtain ⟨taken, unforced⟩ := kept
    refine ⟨h.once, fun location => ?_⟩
    rw [h.entries, winner?_concat, unforced]
    by_cases same : o.location = location
    · -- the place has a winner already
      rw [held, unforced, Option.isSome_map] at taken
      obtain ⟨w, hw⟩ := Option.isSome_iff_exists.mp taken
      rw [same] at hw
      simp [same, hw]
    · simp [same]
  · next free =>
    refine ⟨Table.nodup_insert h.once _ _, fun location => ?_⟩
    rw [winner?_concat]
    by_cases same : o.location = location
    · rw [← same, entryAt?_put_self _ inside]
      simp only [if_true]
      split
      · rfl
      · next unforced =>
        -- nothing was in the place
        rw [Bool.not_eq_true] at unforced
        simp only [unforced, Bool.not_false, Bool.and_true, Bool.not_eq_true, held,
          Option.isSome_map, Option.isSome_eq_false_iff, Option.isNone_iff_eq_none] at free
        simp [unforced, free]
    · rw [entryAt?_put_of_ne _ (Ne.symm same), h.entries, if_neg same]

theorem Filed.mem_places (h : Filed options before outputs after)
    (empty : before.names place = [])
    (placed : ∀ o ∈ outputs, ∃ name, o.location = place ++ [name]) :
    location ∈ (after.names place).map (fun name => place ++ [name]) ↔
      location ∈ outputs.map Output.location := by
  rw [← winner?_isSome options.force]
  constructor
  · intro there
    obtain ⟨name, hname, rfl⟩ := List.mem_map.mp there
    have there := mem_names.mp hname
    rwa [h.entries, entryAt?_of_names_eq_nil empty, Option.or_none, Option.isSome_map] at there
  · intro won
    obtain ⟨o, ho, same⟩ := List.mem_map.mp ((winner?_isSome _).mp won)
    obtain ⟨name, named⟩ := placed o ho
    rw [← same, named] at won ⊢
    refine List.mem_map_of_mem (mem_names.mpr ?_)
    rw [h.entries, Option.isSome_or, Option.isSome_map, won, Bool.true_or]

/-- As many files as outputs, unless two have one place. -/
theorem Filed.length_names (h : Filed options before outputs after)
    (empty : before.names place = [])
    (placed : ∀ o ∈ outputs, ∃ name, o.location = place ++ [name]) :
    (after.names place).length ≤ outputs.length ∧
      ((after.names place).length = outputs.length ↔ (outputs.map Output.location).Nodup) := by
  have distinct : ((after.names place).map fun name => place ++ [name]).Nodup :=
    (nodup_names h.once place).map fun one other same =>
      List.head_eq_of_cons_eq (List.append_cancel_left same)
  have perm : ((after.names place).map fun name => place ++ [name]).Perm
      (outputs.map Output.location).dedup := by
    rw [List.perm_ext_iff_of_nodup distinct (List.nodup_dedup _)]
    intro location
    rw [h.mem_places empty placed, List.mem_dedup]
  have count := perm.length_eq
  rw [List.length_map] at count
  have shorter := List.dedup_sublist (outputs.map Output.location)
  have mapped : (outputs.map Output.location).length = outputs.length := List.length_map _
  rw [count, ← mapped]
  refine ⟨shorter.length_le, ?_, ?_⟩
  · intro same
    exact List.dedup_eq_self.mp (shorter.eq_of_length same)
  · intro single
    rw [List.dedup_eq_self.mpr single]

theorem Filed.not_directory (h : Filed options before outputs after)
    (fresh : before.entryAt? location = none) : after.entryAt? location ≠ some .directory := by
  rw [h.entries, fresh, Option.or_none]
  cases winner? options.force outputs location <;> simp

/-- Nothing that is settled outside of a tree disturbs it. -/
theorem settle_undisturbed (calm : Undisturbed root before between) (outside : ¬ root <+: place)
    (alive : (before.entryAt? root).isSome) (hplace : o.location = place ++ [name])
    (fresh : before.entryAt? o.location = none)
    (free : between.entryAt? o.location ≠ some .directory) :
    Undisturbed root before (settle options between o) := by
  unfold settle
  split
  · exact calm
  · refine calm.put _ ?_ free
    rw [hplace, List.prefix_concat_iff]
    rintro (onto | below)
    · rw [onto, ← hplace, fresh] at alive
      cases alive
    · exact outside below

theorem due_concat : options.due schema place (fs ++ [f]) = options.due schema place fs ++
    ((options.recordOf? schema f).map fun record =>
      (⟨f.path, record, place ++ [f.name ++ ".json"]⟩ : Output)).toList := by
  unfold Options.due
  rw [List.filterMap_append]
  cases h : options.recordOf? schema f <;> simp [h]

theorem processEntry_files (houtput : options.output = some directory)
    (wet : options.dryRun = false) (hdirectory : directory ≠ "")
    (aimed : files.locate directory = .ok place) (there : files.entryAt? place = some .directory)
    (empty : files.names place = []) (outside : ¬ root <+: place)
    (alive : (files.entryAt? root).isSome) {s : Progress}
    (read : s.files.read f.path = .ok f.data)
    (ended : Session.isHidden f.name = false → Session.isFiltered options f.name = false →
      decodeEnds (Session.setting options schema) f.data = true) (hname : IsName f.name)
    (named : fileName f.path = f.name)
    (filed : Filed options files (options.due schema place fs) s.files)
    (calm : Undisturbed root files s.files) :
    Ends (Session.processEntry options schema f.path f.name) s
      (fun _ t => Filed options files (options.due schema place (fs ++ [f])) t.files ∧
        Undisturbed root files t.files) fun _ _ => False := by
  have fresh := entryAt?_of_names_eq_nil empty
  rw [due_concat]
  refine Session.processEntry_ends (P := fun after _ => Filed options files
    (options.due schema place fs ++ _) after ∧ Undisturbed root files after) read ended ?_ ?_
  · intro undue
    simpa [undue] using ⟨filed, calm⟩
  · intro record due t same printed
    rw [due, Option.map_some, Option.toList_some]
    obtain ⟨u, saved, -⟩ := Session.save_ok options directory (target directory f.path)
      (render options.format record) t
    rw [Session.deliver_eq_save houtput wet, ends_iff_of_ok saved]
    have free := filed.not_directory (fresh (f.name ++ ".json"))
    let o : Output := ⟨f.path, record, place ++ [f.name ++ ".json"]⟩
    have stores : ∃ stored, store s.files options.force directory (target directory o.input)
        (render options.format o.record) = (settle options s.files o, stored) :=
      store_settles hdirectory (locate_of_kept calm.here calm.directories aimed)
        (calm.directories place there) (named.symm ▸ hname) (by rw [named]) free
    obtain ⟨stored, hstored⟩ := stores
    rw [← same] at hstored
    rw [save_settles hstored saved, same]
    exact ⟨filed.concat (fresh _), settle_undisturbed calm outside alive rfl (fresh _) free⟩

/-- A file below `root` that is selected, and the record that it decodes to. -/
def Due (options : Options) (schema : Schema) (files : Files) (root location : Location)
    (record : Record) : Prop :=
  ∃ directory name data, location = directory ++ [name] ∧ root <+: location ∧
    files.entryAt? location = some (.file data) ∧ Session.isHidden name = false ∧
    Session.isFiltered options name = false ∧
    (decode (Session.setting options schema) data).result = .ok record

theorem mem_due : o ∈ options.due schema place fs ↔ ∃ f ∈ fs,
    options.recordOf? schema f = some o.record ∧ o.input = f.path ∧
      o.location = place ++ [f.name ++ ".json"] := by
  simp only [Options.due, List.mem_filterMap, Option.map_eq_some_iff]
  constructor
  · rintro ⟨f, hf, record, due, rfl⟩
    exact ⟨f, hf, due, rfl, rfl⟩
  · rintro ⟨f, hf, due, hinput, hlocation⟩
    refine ⟨f, hf, o.record, due, ?_⟩
    rw [← hinput, ← hlocation]

/-- The records for a walk are those of the files below that are selected and decode. -/
theorem due_walk (sound : files.Sound) (hpath : path ≠ "") (located : files.locate path = .ok root)
    (there : files.entryAt? root = some .directory) {record : Record} :
    (∃ o ∈ options.due schema place (files.walk path), files.locate o.input = .ok location ∧
      o.record = record) ↔ Due options schema files root location record := by
  have find := find?_eq_some.mpr ⟨root, located, there⟩
  have reads {f : Found} := read_walk (f := f) sound hpath find
  constructor
  · rintro ⟨o, ho, leads, rfl⟩
    obtain ⟨f, hf, due, hinput, -⟩ := mem_due.mp ho
    obtain ⟨leads', -, -⟩ := reads hf
    rw [hinput, leads'] at leads
    cases leads
    obtain ⟨below, holds⟩ := (mem_walk sound located there).mp ⟨f, hf, rfl, rfl⟩
    exact ⟨f.directory, f.name, f.data, rfl, below, holds, recordOf?_eq_some.mp due⟩
  · rintro ⟨directory, name, data, rfl, below, holds, selected⟩
    obtain ⟨f, hf, same, rfl⟩ := (mem_walk sound located there).mpr ⟨below, holds⟩
    have named : [f.name] = [name] := (List.append_inj' same rfl).2
    obtain rfl : f.name = name := List.head_eq_of_cons_eq named
    refine ⟨⟨f.path, record, place ++ [f.name ++ ".json"]⟩,
      mem_due.mpr ⟨f, hf, recordOf?_eq_some.mpr selected, rfl, rfl⟩, ?_, rfl⟩
    rw [(reads hf).1, same]

theorem nodup_due (sound : files.Sound) (hpath : path ≠ "")
    (there : files.find? path = some .directory) :
    ((options.due schema place (files.walk path)).map fun o => files.locate o.input).Nodup := by
  rw [List.nodup_iff_pairwise_ne, List.pairwise_map, Options.due, List.pairwise_filterMap]
  have distinct := nodup_walk sound path
  rw [List.nodup_iff_pairwise_ne, List.pairwise_map] at distinct
  refine distinct.imp_of_mem fun {f g} hf hg different o ho p hp same => different ?_
  obtain ⟨_, -, rfl⟩ := Option.map_eq_some_iff.mp ho
  obtain ⟨_, -, rfl⟩ := Option.map_eq_some_iff.mp hp
  rw [(read_walk sound hpath there hf).1, (read_walk sound hpath there hg).1] at same
  exact Except.ok.inj same

/-- What a run over a directory leaves in an output directory that was empty, where all decodes come
to an end. -/
theorem directory_files {words : List String} (parsed : Options.parse words = .ok options)
    (hinput : options.input = .directory path) (houtput : options.output = some directory)
    (wet : options.dryRun = false)
    (loaded : Session.readSchema files options.schema = .ok schema) (sound : files.Sound)
    (located : files.locate path = .ok root) (there : files.entryAt? root = some .directory)
    (aimed : files.locate directory = .ok place)
    (inside : files.entryAt? place = some .directory) (empty : files.names place = [])
    (outside : ¬ root <+: place)
    (ended : options.decodesEnd schema (files.walk path) = true) : ∃ outputs : List Output,
      outputs = options.due schema place (files.walk path) ∧
      (run words files).ending = .success ∧
      (∀ location record, (∃ o ∈ outputs, files.locate o.input = .ok location ∧ o.record = record) ↔
        Due options schema files root location record) ∧
      (outputs.map fun o => files.locate o.input).Nodup ∧
      (∀ o ∈ outputs, o.location = place ++ [fileName o.input ++ ".json"]) ∧
      (∀ location, (run words files).files.entryAt? location =
        ((winner? options.force outputs location).map fun o =>
          Entry.file (o.data options.format)).or (files.entryAt? location)) ∧
      ((run words files).files.names place).length ≤ outputs.length ∧
      (((run words files).files.names place).length = outputs.length ↔
        (outputs.map Output.location).Nodup) ∧
      ((outputs.map Output.location).Nodup → ∀ o ∈ outputs,
        (run words files).files.entryAt? o.location = some (.file (o.data options.format))) := by
  have find := find?_eq_some.mpr ⟨root, located, there⟩
  obtain ⟨-, hpath, hdirectory⟩ := Options.parse_paths parsed
  rw [hinput] at hpath
  rw [houtput] at hdirectory
  obtain ⟨ending, filed, -⟩ := run_directory (P := fun before after _ =>
      Filed options files (options.due schema place before) after ∧ Undisturbed root files after)
    parsed hinput loaded located there (fun _ _ _ h => h.2) ⟨.nil sound, .refl root files⟩ (by
      intro before f hf s ⟨filed, calm⟩
      exact processEntry_files houtput wet (fun blank => hdirectory (congrArg some blank)) aimed
        inside empty outside (by rw [there]; rfl) (calm.read sound hpath located there hf)
        (decodeEnds_of_mem ended hf) (isName_of_mem_walk sound hf) (read_walk sound hpath find hf).2.2
        filed calm)
  have placed : ∀ o ∈ options.due schema place (files.walk path),
      o.location = place ++ [fileName o.input ++ ".json"] := by
    intro o ho
    obtain ⟨f, hf, -, hinput, hlocation⟩ := mem_due.mp ho
    rw [hinput, (read_walk sound hpath find hf).2.2, hlocation]
  obtain ⟨fewer, exactly⟩ := filed.length_names empty fun o ho => ⟨_, placed o ho⟩
  refine ⟨_, rfl, ending, fun _ _ => due_walk sound hpath located there, nodup_due sound hpath find,
    placed, filed.entries, fewer, exactly, ?_⟩
  intro single o ho
  rw [filed.entries, winner?_of_nodup single ho]
  rfl

namespace CommandSample

/-- Two inputs of one name, and an empty directory for what is made of them. -/
def colliding : Files := { tree with entries := tree.entries ++ [(["out"], .directory)] }

/-- Two inputs of different names. -/
def tidy : Files where
  here := []
  entries := tree.entries.take 4 ++ [(["in", "sub", "b"], .file [8]), (["out"], .directory)]

end CommandSample

open CommandSample in
theorem directory_files_tidy : (run ["-s", "s", "-d", "in", "-o", "out"] tidy).ending = .success ∧
    ∃ outputs : List Output, outputs.length = 2 ∧ ∀ o ∈ outputs,
      (run ["-s", "s", "-d", "in", "-o", "out"] tidy).files.entryAt? o.location =
        some (.file (o.data .json)) := by
  have parsed : Options.parse ["-s", "s", "-d", "in", "-o", "out"] = .ok storing := rfl
  have loads : ((Session.readSchema tidy "s").map fun schema =>
      (storing.decodesEnd schema (tidy.walk "in"),
        (storing.due schema ["out"] (tidy.walk "in")).length)).toOption = some (true, 2) := by
    decide +kernel
  have located : tidy.locate "in" = .ok ["in"] := rfl
  have aimed : tidy.locate "out" = .ok ["out"] := rfl
  have both : (run ["-s", "s", "-d", "in", "-o", "out"] tidy).files.names ["out"] =
      ["a.json", "b.json"] := by decide +kernel
  obtain ⟨schema, loaded, facts⟩ := exists_of_map loads
  obtain ⟨ended, two⟩ := Prod.mk.inj facts
  obtain ⟨outputs, same, ending, -, -, -, -, -, exactly, kept⟩ :=
    directory_files parsed rfl rfl rfl loaded (by decide +kernel) located (by decide +kernel) aimed
      (by decide +kernel) (by decide +kernel) (by decide) ended
  rw [← same] at two
  rw [both, two] at exactly
  exact ⟨ending, outputs, two, kept (exactly.mp rfl)⟩

open CommandSample in
/-- Two inputs decode, and there is one file for them. -/
theorem directory_files_colliding : colliding.Sound ∧ colliding.names ["out"] = [] ∧
    Options.parse ["-s", "s", "-d", "in", "-o", "out"] = .ok storing ∧
    Options.parse ["-s", "s", "-d", "in", "-o", "out", "--force"] =
      .ok { storing with force := true } ∧
    ∃ schema record other, Session.readSchema colliding "s" = .ok schema ∧
      Due storing schema colliding ["in"] ["in", "a"] record ∧
      Due storing schema colliding ["in"] ["in", "sub", "a"] other ∧
      (run ["-s", "s", "-d", "in", "-o", "out"] colliding).ending.status = 0 ∧
      (run ["-s", "s", "-d", "in", "-o", "out"] colliding).files.names ["out"] = ["a.json"] ∧
      (run ["-s", "s", "-d", "in", "-o", "out", "--force"] colliding).ending.status = 0 ∧
      (run ["-s", "s", "-d", "in", "-o", "out", "--force"] colliding).files.names ["out"] =
        ["a.json"] := by
  refine ⟨by decide +kernel, by decide +kernel, rfl, rfl, ?_⟩
  have loads : ((Session.readSchema colliding "s").map fun schema =>
      ((decode (Session.setting storing schema) [7]).result.toOption.isSome,
        (decode (Session.setting storing schema) [8]).result.toOption.isSome)).toOption =
      some (true, true) := by decide +kernel
  obtain ⟨schema, loaded, decodes⟩ := exists_of_map loads
  obtain ⟨seven, eight⟩ := Prod.mk.inj decodes
  obtain ⟨record, first⟩ := Option.isSome_iff_exists.mp seven
  obtain ⟨other, second⟩ := Option.isSome_iff_exists.mp eight
  exact ⟨schema, record, other, loaded,
    ⟨["in"], "a", [7], rfl, by decide, rfl, by decide, rfl, toOption_eq_some.mp first⟩,
    ⟨["in", "sub"], "a", [8], rfl, by decide, rfl, by decide, rfl, toOption_eq_some.mp second⟩,
    by decide +kernel, by decide +kernel, by decide +kernel, by decide +kernel⟩

end ByteSchema.Command
