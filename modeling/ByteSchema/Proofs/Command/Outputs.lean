import ByteSchema.Proofs.Command.Respects
import ByteSchema.Proofs.Files.Access

/-!
# What a run does to the files

Without an output directory, and in a dry run, nothing. Otherwise the files change by directories
that are made and by one write for each line that says so: `run_changes`. What a single write leaves
is `Wrote`, what all of them leave is read off the chain `Writes`.
-/

namespace ByteSchema.Command

open ByteSchema

variable {files before between after : Files} {force : Bool} {path directory content : String}
  {location : Location} {bytes : List UInt8} {failure : Failure}

/-! ### One write -/

/-- The files after a write, which may have made directories first. -/
structure Wrote (force : Bool) (path : String) (bytes : List UInt8) (location : Location)
    (before after : Files) : Prop where
  here : after.here = before.here
  located : after.locate path = .ok location
  content : after.entryAt? location = some (.file bytes)
  others (other : Location) : other ≠ location → after.entryAt? other = before.entryAt? other ∨
    before.entryAt? other = none ∧ after.entryAt? other = some .directory
  notDirectory : before.entryAt? location ≠ some .directory
  fresh : force = false → before.entryAt? location = none

theorem Wrote.kept_of_ne (h : Wrote force path bytes location before after) {other : Location}
    {entry : Entry} (different : other ≠ location) (there : before.entryAt? other = some entry) :
    after.entryAt? other = some entry := by
  obtain same | ⟨free, -⟩ := h.others other different
  · exact same.trans there
  · rw [free] at there
    cases there

theorem Wrote.kept_directory (h : Wrote force path bytes location before after) {other : Location}
    (there : before.entryAt? other = some .directory) :
    after.entryAt? other = some .directory := by
  refine h.kept_of_ne (fun same => h.notDirectory ?_) there
  rw [← same, there]

theorem Wrote.kept (h : Wrote force path bytes location before after) (unforced : force = false)
    {other : Location} {entry : Entry} (there : before.entryAt? other = some entry) :
    after.entryAt? other = some entry := by
  refine h.kept_of_ne (fun same => ?_) there
  rw [same, h.fresh unforced] at there
  cases there

theorem create_ok (h : create files force path content = .ok after) : ∃ location,
    files.locate path = .ok location ∧ files.entryAt? location ≠ some .directory ∧
      (force = false → files.entryAt? location = none) ∧
      after = files.put location (.file (Files.encode content)) := by
  unfold create at h
  split at h
  · cases h
  · next free =>
    cases written : files.write path content with
    | error fault =>
      rw [written] at h
      cases h
    | ok next =>
      rw [written] at h
      obtain rfl : next = after := Except.ok.inj h
      obtain ⟨location, located, notDirectory, rfl⟩ := Files.write_ok written
      refine ⟨location, located, notDirectory, fun unforced => ?_, rfl⟩
      rw [Files.find?_of_locate located, unforced] at free
      simpa using free

theorem wrote_of_create (made : Files.Made before between)
    (h : create between force path content = .ok after) :
    ∃ location, Wrote force path (Files.encode content) location before after := by
  obtain ⟨location, located, notDirectory, fresh, rfl⟩ := create_ok h
  have inside : location ≠ [] := by
    intro root
    rw [root] at notDirectory
    exact notDirectory rfl
  have kept (other : Location) (there : between.entryAt? other = some .directory) :
      (between.put location (.file (Files.encode content))).entryAt? other = some .directory := by
    by_cases same : other = location
    · rw [same] at there
      exact absurd there notDirectory
    · rw [Files.entryAt?_put_of_ne _ same, there]
  have here : (between.put location (.file (Files.encode content))).here = between.here := rfl
  refine ⟨location, made.here, Files.locate_of_kept here kept located,
    Files.entryAt?_put_self _ inside, fun other different => ?_, fun there => ?_,
    fun unforced => ?_⟩
  · rw [Files.entryAt?_put_of_ne _ different]
    exact made.entries other
  · obtain same | ⟨free, -⟩ := made.entries location
    · exact notDirectory (same.trans there)
    · rw [free] at there
      cases there
  · obtain same | ⟨-, there⟩ := made.entries location
    · exact same.symm.trans (fresh unforced)
    · exact absurd there notDirectory

theorem create_error (h : create files force path content = .error failure) :
    (∃ entry, force = false ∧ files.find? path = some entry ∧
      failure = ⟨s!"File already exists: {path} (use --force to overwrite)", []⟩) ∨
    ∃ fault, files.write path content = .error fault ∧
      failure = ⟨s!"Failed to create file: {path}", [fault.message]⟩ := by
  unfold create at h
  split at h
  · next taken =>
    cases h
    simp only [Bool.and_eq_true, Bool.not_eq_true', Option.isSome_iff_exists] at taken
    obtain ⟨⟨entry, there⟩, unforced⟩ := taken
    exact .inl ⟨entry, unforced, there, rfl⟩
  · right
    cases written : files.write path content with
    | ok _ =>
      rw [written] at h
      cases h
    | error fault =>
      rw [written] at h
      cases h
      exact ⟨fault, rfl, rfl⟩

/-- Why the file for a record is not written. -/
inductive Refused (files : Files) (force : Bool) (directory path content : String) : Failure → Prop
  | directory {between : Files} {fault : FileFault} :
      files.makeDirectory (FilePath.bare directory) = (between, .error fault) →
      Refused files force directory path content
        ⟨s!"Failed to create directory: {FilePath.bare directory}", [fault.message]⟩
  | present {between : Files} {entry : Entry} :
      files.makeDirectory (FilePath.bare directory) = (between, .ok ()) → force = false →
      between.find? path = some entry → Refused files force directory path content
        ⟨s!"File already exists: {path} (use --force to overwrite)", []⟩
  | file {between : Files} {fault : FileFault} :
      files.makeDirectory (FilePath.bare directory) = (between, .ok ()) →
      between.write path (content ++ "\n") = .error fault →
      Refused files force directory path content
        ⟨s!"Failed to create file: {path}", [fault.message]⟩

theorem store_cases (files : Files) (force : Bool) (directory path content : String) :
    (∃ after failure, store files force directory path content = (after, .error failure) ∧
      Files.Made files after ∧ Refused files force directory path content failure) ∨
    ∃ after location, store files force directory path content = (after, .ok ()) ∧
      Wrote force path (Files.encode (content ++ "\n")) location files after := by
  have prepared := Files.makeDirectory_made files (FilePath.bare directory)
  dsimp only [store]
  cases attempt : files.makeDirectory (FilePath.bare directory) with
  | mk between made =>
    rw [attempt] at prepared
    cases made with
    | error fault => exact .inl ⟨between, _, rfl, prepared, .directory attempt⟩
    | ok _ =>
      dsimp only
      cases created : create between force path (content ++ "\n") with
      | error failure =>
        refine .inl ⟨between, failure, rfl, prepared, ?_⟩
        rcases create_error created with ⟨entry, unforced, there, rfl⟩ | ⟨fault, written, rfl⟩
        · exact .present attempt unforced there
        · exact .file attempt written
      | ok after =>
        obtain ⟨location, wrote⟩ := wrote_of_create prepared created
        exact .inr ⟨after, location, rfl, wrote⟩

/-! ### All writes of a run -/

/-- A record that was written, with the input that it came from and the place that it went to. -/
structure Output where
  input : String
  record : Record
  location : Location

namespace Output

def data (format : Format) (o : Output) : List UInt8 :=
  Files.encode (render format o.record ++ "\n")

def line (directory : String) (o : Output) : String := s!"Wrote {target directory o.input}"

end Output

/-- How there comes to be what there is at a location after some outputs. -/
inductive Origin (format : Format) (before : Files) (outputs : List Output) (after : Files)
    (location : Location) : Prop
  | untouched : after.entryAt? location = before.entryAt? location →
      Origin format before outputs after location
  | made : before.entryAt? location = none → after.entryAt? location = some .directory →
      Origin format before outputs after location
  | written (o : Output) : o ∈ outputs → o.location = location →
      before.entryAt? location ≠ some .directory →
      after.entryAt? location = some (.file (o.data format)) →
      Origin format before outputs after location

theorem Origin.step {format : Format} {outputs : List Output}
    (h : Origin format before outputs between location)
    (kept : after.entryAt? location = between.entryAt? location ∨
      between.entryAt? location = none ∧ after.entryAt? location = some .directory) :
    Origin format before outputs after location := by
  obtain same | ⟨free, made⟩ := kept
  · cases h with
    | untouched first => exact .untouched (same.trans first)
    | made first there => exact .made first (same.trans there)
    | written o ho place notDirectory there =>
      exact .written o ho place notDirectory (same.trans there)
  · cases h with
    | untouched first => exact .made (first.symm.trans free) made
    | made first there =>
      rw [free] at there
      cases there
    | written o ho place notDirectory there =>
      rw [free] at there
      cases there

theorem Origin.mono {format : Format} {outputs more : List Output}
    (h : Origin format before outputs after location) (sub : ∀ o ∈ outputs, o ∈ more) :
    Origin format before more after location := by
  cases h with
  | untouched same => exact .untouched same
  | made free there => exact .made free there
  | written o ho place notDirectory there => exact .written o (sub o ho) place notDirectory there

/-- The files `after` come from those `before` by the outputs in order, each decoded from the files
as they were when its turn came. Directories may be made at any time. -/
inductive Writes (options : Options) (schema : Except Error Schema) (directory : String)
    (before : Files) : List Output → Files → Prop
  | nil : Writes options schema directory before [] before
  | make {outputs : List Output} {between after : Files} :
      Writes options schema directory before outputs between → Files.Made between after →
      Writes options schema directory before outputs after
  | write {outputs : List Output} {between after : Files} {loaded : Schema} (o : Output) :
      Writes options schema directory before outputs between → schema = .ok loaded →
      IsInput options o.input → Decodes options loaded between o.input o.record →
      Wrote options.force (target directory o.input) (o.data options.format) o.location
        between after →
      Writes options schema directory before (outputs ++ [o]) after

namespace Writes

variable {options : Options} {schema : Except Error Schema} {outputs more : List Output}

theorem trans (h : Writes options schema directory before outputs between)
    (h' : Writes options schema directory between more after) :
    Writes options schema directory before (outputs ++ more) after := by
  induction h' with
  | nil =>
    rw [List.append_nil]
    exact h
  | make _ made ih => exact ih.make made
  | write o _ loaded input decodes wrote ih =>
    rw [← List.append_assoc]
    exact ih.write o loaded input decodes wrote

theorem kept_directory (h : Writes options schema directory before outputs after)
    (there : before.entryAt? location = some .directory) :
    after.entryAt? location = some .directory := by
  induction h with
  | nil => exact there
  | make _ made ih => exact made.kept ih
  | write o _ _ _ _ wrote ih => exact wrote.kept_directory ih

theorem located (h : Writes options schema directory before outputs after) :
    ∀ o ∈ outputs, after.locate (target directory o.input) = .ok o.location := by
  induction h with
  | nil => exact fun _ none => nomatch none
  | make _ made ih =>
    exact fun o ho => Files.locate_of_kept made.here (fun _ => made.kept) (ih o ho)
  | write new _ _ _ _ wrote ih =>
    intro o ho
    obtain old | last := List.mem_append.mp ho
    · exact Files.locate_of_kept wrote.here (fun _ => wrote.kept_directory) (ih o old)
    · obtain rfl := List.mem_singleton.mp last
      exact wrote.located

theorem origin (h : Writes options schema directory before outputs after) (location : Location) :
    Origin options.format before outputs after location := by
  induction h with
  | nil => exact .untouched rfl
  | make _ made ih => exact ih.step (made.entries location)
  | write o writes _ _ _ wrote ih =>
    by_cases here : location = o.location
    · refine .written o (List.mem_append_right _ (List.mem_singleton.mpr rfl)) here.symm
        (fun there => wrote.notDirectory ?_) (here ▸ wrote.content)
      rw [← here]
      exact writes.kept_directory there
    · exact (ih.step (wrote.others location here)).mono fun _ => List.mem_append_left _

/-! ### Without force -/

section Unforced

variable (unforced : options.force = false)
include unforced

theorem kept (h : Writes options schema directory before outputs after) {entry : Entry}
    (there : before.entryAt? location = some entry) : after.entryAt? location = some entry := by
  induction h with
  | nil => exact there
  | make _ made ih => exact made.kept ih
  | write o _ _ _ _ wrote ih => exact wrote.kept unforced ih

theorem contents (h : Writes options schema directory before outputs after) :
    ∀ o ∈ outputs, after.entryAt? o.location = some (.file (o.data options.format)) := by
  induction h with
  | nil => exact fun _ none => nomatch none
  | make _ made ih => exact fun o ho => made.kept (ih o ho)
  | write new _ _ _ _ wrote ih =>
    intro o ho
    obtain old | last := List.mem_append.mp ho
    · exact wrote.kept unforced (ih o old)
    · obtain rfl := List.mem_singleton.mp last
      exact wrote.content

theorem nodup (h : Writes options schema directory before outputs after) :
    (outputs.map Output.location).Nodup := by
  induction h with
  | nil => exact List.nodup_nil
  | make _ _ ih => exact ih
  | write new writes _ _ _ wrote ih =>
    rw [List.map_append, List.nodup_append]
    refine ⟨ih, List.pairwise_singleton _ _, fun place old other last => ?_⟩
    obtain ⟨o, ho, rfl⟩ := List.mem_map.mp old
    obtain rfl := List.mem_singleton.mp last
    intro same
    have taken := writes.contents unforced o ho
    rw [same, wrote.fresh unforced] at taken
    cases taken

end Unforced

end Writes

/-! ### Runs -/

namespace Session

/-- The progress of a run that writes. -/
def Delivers (options : Options) (schema : Except Error Schema) (directory : String)
    (s t : Progress) : Prop :=
  ∃ outputs, Writes options schema directory s.files outputs t.files ∧
    t.printed = (outputs.map (Output.line directory)).reverse ++ s.printed

variable {options : Options} {loaded : Schema}

theorem untouched_quiet : Quiet fun s t => t.files = s.files where
  quiet files _ := files
  trans h h' := h'.trans h

theorem untouched_ledger (h : options.output = none ∨ options.dryRun = true) :
    Ledger options loaded fun s t => t.files = s.files where
  toQuiet := untouched_quiet
  delivers headed _ _ := by
    unfold deliver
    split
    · split <;> rfl
    · next directory houtput =>
      have dry : options.dryRun = true :=
        h.resolve_left (by rw [houtput]; exact Option.some_ne_none _)
      rw [if_pos dry, announce]
      split <;> rfl

theorem delivers_quiet {schema : Except Error Schema} :
    Quiet (Delivers options schema directory) where
  quiet files printed := by
    refine ⟨[], ?_, printed⟩
    rw [files]
    exact .nil
  trans := by
    rintro s t u ⟨outputs, writes, printed⟩ ⟨more, writes', printed'⟩
    refine ⟨outputs ++ more, writes.trans writes', ?_⟩
    rw [printed', printed, List.map_append, List.reverse_append, List.append_assoc]

theorem deliver_eq_save (houtput : options.output = some directory) (wet : options.dryRun = false)
    (input content : String) (headed : Bool) : deliver options input content headed =
      save options directory (target directory input) content := by
  simp only [deliver, houtput, wet, Bool.false_eq_true, if_false]

/-- Saving does not fail: the file is written, or the log says why it is not. -/
theorem save_ok (options : Options) (directory path content : String) (s : Progress) :
    ∃ t, save options directory path content s = .ok () t ∧
      ((∃ location, t.printed = s!"Wrote {path}" :: s.printed ∧
        Wrote options.force path (Files.encode (content ++ "\n")) location s.files t.files) ∨
      ∃ failure, t.printed = s.printed ∧ Files.Made s.files t.files ∧
        Refused s.files options.force directory path content failure ∧
        ⟨.error, s!"Failed to write {path}: {failure.inLine}"⟩ ∈ t.notes) := by
  have outcome := store_cases s.files options.force directory path content
  have read : Session.files s = .ok s.files s := rfl
  unfold save
  simp only [run_bind, read]
  rcases outcome with ⟨after, failure, stored, made, refused⟩ | ⟨after, location, stored, wrote⟩
  · rw [stored]
    exact ⟨_, rfl, .inr ⟨failure, rfl, made, refused, List.mem_cons_self⟩⟩
  · rw [stored]
    exact ⟨_, rfl, .inl ⟨location, rfl, wrote⟩⟩

theorem delivers_ledger {schema : Except Error Schema} (hloaded : schema = .ok loaded)
    (houtput : options.output = some directory) (wet : options.dryRun = false) :
    Ledger options loaded (Delivers options schema directory) where
  toQuiet := delivers_quiet
  delivers {s input record} headed selected decodes := by
    obtain ⟨t, saved, outcome⟩ := save_ok options directory (target directory input)
      (render options.format record) s
    rw [deliver_eq_save houtput wet, ends_iff_of_ok saved]
    rcases outcome with ⟨location, printed, wrote⟩ | ⟨failure, printed, made, -⟩
    · exact ⟨[⟨input, record, location⟩],
        Writes.nil.write ⟨input, record, location⟩ hloaded selected decodes wrote, printed⟩
    · exact ⟨[], Writes.nil.make made, printed⟩

end Session

theorem Options.run_of_ends {options : Options} {P : Progress → Prop}
    (h : Ends (Session.program options) (.initial files) (fun _ t => P t) fun _ t => P t) :
    ∃ t, P t ∧ (options.run files).files = t.files ∧
      (options.run files).printed = t.printed.reverse := by
  dsimp only [Options.run]
  split
  · next t hrun => exact ⟨t, h.of_ok hrun, rfl, rfl⟩
  · next failure t hrun => exact ⟨t, h.of_error hrun, rfl, rfl⟩

theorem run_of_parse {words : List String} {options : Options}
    (h : Options.parse words = .ok options) : run words files = options.run files := by
  rw [run, h]

theorem files_of_stop {words : List String} {stop : Stop} (h : Options.parse words = .error stop) :
    (run words files).files = files := by
  rw [run, h]
  cases stop <;> rfl

theorem files_of_quiet {options : Options} (h : options.output = none ∨ options.dryRun = true) :
    (options.run files).files = files := by
  obtain ⟨t, same, hfiles, -⟩ := Options.run_of_ends
    (Session.program_respects (s := .initial files) Session.untouched_quiet fun _ _ =>
      Session.untouched_ledger h)
  exact hfiles.trans same

theorem run_writes (files : Files) {options : Options} (houtput : options.output = some directory)
    (wet : options.dryRun = false) : ∃ outputs,
      Writes options (Session.readSchema files options.schema) directory files outputs
        (options.run files).files ∧
      (options.run files).printed = outputs.map (Output.line directory) := by
  obtain ⟨t, ⟨outputs, writes, printed⟩, hfiles, hprinted⟩ := Options.run_of_ends
    (Session.program_respects (s := .initial files) Session.delivers_quiet fun _ loaded =>
      Session.delivers_ledger loaded houtput wet)
  refine ⟨outputs, hfiles ▸ writes, ?_⟩
  rw [hprinted, printed, List.reverse_append, List.reverse_reverse]
  rfl

/-- A run without an output directory, or a dry one, leaves the files as they are. Any other changes
them by its outputs, and unless forced keeps what was there, those written before among it. -/
theorem run_changes (words : List String) (files : Files) :
    ((∀ options, Options.parse words = .ok options →
        options.output = none ∨ options.dryRun = true) → (run words files).files = files) ∧
      ∀ options directory, Options.parse words = .ok options →
        options.output = some directory → options.dryRun = false → ∃ outputs,
          Writes options (Session.readSchema files options.schema) directory files outputs
            (run words files).files ∧
          (run words files).printed = outputs.map (Output.line directory) ∧
          (∀ location, Origin options.format files outputs (run words files).files location) ∧
          (∀ o ∈ outputs,
            (run words files).files.locate (target directory o.input) = .ok o.location) ∧
          (options.force = false →
            (∀ location entry, files.entryAt? location = some entry →
              (run words files).files.entryAt? location = some entry) ∧
            (outputs.map Output.location).Nodup ∧
            ∀ o ∈ outputs, (run words files).files.entryAt? o.location =
              some (.file (o.data options.format))) := by
  constructor
  · intro quiet
    cases hparse : Options.parse words with
    | error stop => exact files_of_stop hparse
    | ok options =>
      rw [run_of_parse hparse]
      exact files_of_quiet (quiet options hparse)
  · intro options directory hparse houtput wet
    obtain ⟨outputs, writes, printed⟩ := run_writes files houtput wet
    rw [run_of_parse hparse]
    exact ⟨outputs, writes, printed, writes.origin, writes.located, fun unforced =>
      ⟨fun _ _ => writes.kept unforced, writes.nodup unforced, writes.contents unforced⟩⟩

namespace CommandSample

/-- Two inputs of one name. -/
def tree : Files where
  here := []
  entries := [
    (["s"], .file (Files.encode "\x7b\"spec\":[\x7b\"type\":\"uint\",\"id\":\"n\",\"length\":1\x7d]\x7d")),
    (["in"], .directory),
    (["in", "a"], .file [7]),
    (["in", "sub"], .directory),
    (["in", "sub", "a"], .file [8])]

def storing : Options where
  schema := "s"
  input := .directory "in"
  output := some "out"
  verbosity := 0
  format := .json
  extension := none
  config := .default
  dryRun := false
  force := false

end CommandSample

open CommandSample in
theorem run_changes_tree :
    (run ["-s", "s", "-d", "in", "-o", "out", "--dry-run"] tree).files = tree ∧
      ∃ outputs, Writes storing (Session.readSchema tree "s") "out" tree outputs
          (run ["-s", "s", "-d", "in", "-o", "out"] tree).files ∧
        outputs.length = 1 ∧
        (run ["-s", "s", "-d", "in", "-o", "out"] tree).files.entryAt? ["in", "a"] =
          some (.file [7]) := by
  have dry : Options.parse ["-s", "s", "-d", "in", "-o", "out", "--dry-run"] =
      .ok { storing with dryRun := true } := rfl
  have wet : Options.parse ["-s", "s", "-d", "in", "-o", "out"] = .ok storing := rfl
  have unchanged := (run_changes ["-s", "s", "-d", "in", "-o", "out", "--dry-run"] tree).1
  obtain ⟨outputs, writes, printed, -, -, unforced⟩ :=
    (run_changes ["-s", "s", "-d", "in", "-o", "out"] tree).2 storing "out" wet rfl rfl
  refine ⟨unchanged fun options parsed => ?_, outputs, writes, ?_, (unforced rfl).1 _ _ rfl⟩
  · rw [dry] at parsed
    cases parsed
    exact .inr rfl
  · have lines : (run ["-s", "s", "-d", "in", "-o", "out"] tree).printed.length = 1 := by
      decide +kernel
    rw [printed, List.length_map] at lines
    exact lines

end ByteSchema.Command
