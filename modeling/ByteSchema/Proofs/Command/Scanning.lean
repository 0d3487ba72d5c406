import ByteSchema.Proofs.Command.Given
import ByteSchema.Proofs.Command.Respects
import ByteSchema.Proofs.Files.Walk

/-!
# Scanning a directory

A directory is listed when it is reached, so what is delivered for one file could change what is
found later. As long as the tree is left `Undisturbed`, a run takes the files that were there in the
order of their walk, one after the other, and ends well: `run_directory`.
-/

namespace ByteSchema

/-- From `root` down nothing has changed, and every directory is still there. -/
structure Files.Undisturbed (root : Location) (before after : Files) : Prop where
  here : after.here = before.here
  directories (place : Location) :
    before.entryAt? place = some .directory → after.entryAt? place = some .directory
  entries (place : Location) : root <+: place → after.entryAt? place = before.entryAt? place
  names (place : Location) : root <+: place → after.names place = before.names place

theorem Files.Undisturbed.refl (root : Location) (files : Files) : Undisturbed root files files :=
  ⟨rfl, fun _ => id, fun _ _ => rfl, fun _ _ => rfl⟩

theorem Files.Undisturbed.put {root location : Location} {before between : Files}
    (h : Undisturbed root before between) (entry : Entry) (outside : ¬ root <+: location)
    (free : between.entryAt? location ≠ some .directory) :
    Undisturbed root before (between.put location entry) := by
  refine ⟨h.here, fun place there => ?_, fun place below => ?_, fun place below => ?_⟩
  · have there := h.directories place there
    rw [entryAt?_put_of_ne entry (by rintro rfl; exact free there), there]
  · rw [entryAt?_put_of_ne entry (by rintro rfl; exact outside below), h.entries place below]
  · rw [names_put entry, h.names place below]
    rintro name rfl
    exact outside (below.trans (List.prefix_append _ _))

theorem Files.Undisturbed.read {root : Location} {before after : Files} {path : String} {f : Found}
    (h : Undisturbed root before after) (sound : before.Sound) (hpath : path ≠ "")
    (located : before.locate path = .ok root) (there : before.entryAt? root = some .directory)
    (hf : f ∈ before.walk path) : after.read f.path = .ok f.data := by
  obtain ⟨leads, -, -⟩ := read_walk sound hpath (find?_eq_some.mpr ⟨root, located, there⟩) hf
  rw [walk_of_locate located] at hf
  obtain ⟨below, holds⟩ := entryAt?_of_mem_walkWithin hf
  have same := h.entries f.location (below.trans (List.prefix_append _ _))
  exact read_of_locate (locate_of_kept h.here h.directories leads) (same.trans holds)

namespace Command

open ByteSchema.Files

variable {options : Options} {schema : Schema} {files : Files} {root location : Location}
  {path : String} {f : Found}

/-- The record of a file that is selected and decodes. -/
def Options.recordOf? (options : Options) (schema : Schema) (f : Found) : Option Record :=
  if Session.isHidden f.name || Session.isFiltered options f.name then none
  else (decode (Session.setting options schema) f.data).result.toOption

theorem recordOf?_eq_some {record : Record} : options.recordOf? schema f = some record ↔
    Session.isHidden f.name = false ∧ Session.isFiltered options f.name = false ∧
      (decode (Session.setting options schema) f.data).result = .ok record := by
  unfold Options.recordOf?
  cases Session.isHidden f.name <;> cases Session.isFiltered options f.name <;>
    simp [toOption_eq_some]

/-- The decodes of the selected files come to a record or an error. -/
def Options.decodesEnd (options : Options) (schema : Schema) (fs : List Found) : Bool :=
  fs.all fun f => Session.isHidden f.name || Session.isFiltered options f.name ||
    decodeEnds (Session.setting options schema) f.data

theorem decodeEnds_of_mem {fs : List Found} (ended : options.decodesEnd schema fs = true)
    (hf : f ∈ fs) (shown : Session.isHidden f.name = false)
    (kept : Session.isFiltered options f.name = false) :
    decodeEnds (Session.setting options schema) f.data = true := by
  have ended := List.all_eq_true.mp ended f hf
  rwa [shown, kept] at ended

namespace Session

theorem decodes_of_read {input : String} {data : List UInt8} {record : Record}
    (read : files.read input = .ok data) : Decodes options schema files input record ↔
      (decode (setting options schema) data).result = .ok record := by
  constructor
  · rintro ⟨other, read', decoded⟩
    rw [read] at read'
    cases read'
    exact decoded
  · intro decoded
    exact ⟨data, read, decoded⟩

/-- A file is passed by or its record is delivered, and no failure gets out. -/
theorem processEntry_ends {s : Progress} {P : Files → List String → Prop}
    (read : s.files.read f.path = .ok f.data)
    (ended : isHidden f.name = false → isFiltered options f.name = false →
      decodeEnds (setting options schema) f.data = true)
    (silent : options.recordOf? schema f = none → P s.files s.printed)
    (delivered : ∀ record, options.recordOf? schema f = some record →
      ∀ t, t.files = s.files → t.printed = s.printed →
        Ends (deliver options f.path (render options.format record) true) t
          (fun _ u => P u.files u.printed) fun _ _ => False) :
    Ends (processEntry options schema f.path f.name) s (fun _ t => P t.files t.printed)
      fun _ _ => False := by
  unfold processEntry
  split
  · next hidden => exact silent (by simp [Options.recordOf?, hidden])
  · next shown =>
    split
    · next filtered => exact silent (by simp [Options.recordOf?, filtered])
    · next kept =>
      have ended := ended (eq_false_of_ne_true shown) (eq_false_of_ne_true kept)
      simp only [ends_bind, ends_note, ends_tryCatch]
      unfold process
      rw [ends_bind]
      refine (decodeInput_ends options schema f.path _).imp ?_ ?_
      · rintro record t ⟨files, printed, decoded⟩
        have decoded := (decodes_of_read read).mp decoded
        have due := recordOf?_eq_some.mpr
          ⟨eq_false_of_ne_true shown, eq_false_of_ne_true kept, decoded⟩
        exact (delivered record due t files printed).imp (fun _ _ => id) fun _ _ => False.elim
      · rintro interrupt t ⟨files, printed, undecoded, failed⟩
        obtain ⟨failure, rfl⟩ := failed f.data read ended
        show P t.files t.printed
        rw [files, printed]
        apply silent
        apply Option.eq_none_iff_forall_ne_some.mpr
        intro record due
        obtain ⟨-, -, decoded⟩ := recordOf?_eq_some.mp due
        exact undecoded record ((decodes_of_read read).mpr decoded)

theorem forM_ends {α β : Type} {step : α → Session Unit} {expand : α → List β}
    {P : List β → Progress → Prop} {items : List α}
    (hstep : ∀ item ∈ items, ∀ before s, P before s →
      Ends (step item) s (fun _ t => P (before ++ expand item) t) fun _ _ => False)
    {before : List β} {s : Progress} (h : P before s) :
    Ends (items.forM step) s (fun _ t => P (before ++ items.flatMap expand) t)
      fun _ _ => False := by
  induction items generalizing before s with
  | nil => simpa using h
  | cons item rest ih =>
    have unrolled : (item :: rest).forM step = step item >>= fun _ => rest.forM step := rfl
    rw [unrolled, ends_bind]
    have first := hstep item List.mem_cons_self before s h
    refine first.imp_done fun _ t ht => ?_
    rw [List.flatMap_cons, ← List.append_assoc]
    exact ih (fun other hother => hstep other (List.mem_cons_of_mem item hother)) ht

/-- What holds after every single file holds after a walk. -/
theorem visit_ends {act : String → String → Session Unit} {P : List Found → Progress → Prop}
    (calm : ∀ before s, P before s → Undisturbed root files s.files) (levels : Nat)
    (below : root <+: location)
    (hact : ∀ before, ∀ f ∈ files.walkWithin levels path location, ∀ s, P before s →
      Ends (act f.path f.name) s (fun _ t => P (before ++ [f]) t) fun _ _ => False)
    {before : List Found} {s : Progress} (h : P before s) :
    Ends (visit act levels path location) s
      (fun _ t => P (before ++ files.walkWithin levels path location) t) fun _ _ => False := by
  induction levels generalizing path location before s with
  | zero => simpa [visit, walkWithin] using h
  | succ levels ih =>
    unfold visit
    rw [ends_bind, ends_files, (calm before s h).names location below]
    refine forM_ends (fun name hname before s h => ?_) h
    have inner : root <+: location ++ [name] := below.trans (List.prefix_append _ _)
    rw [ends_bind, ends_files, (calm before s h).entries _ inner]
    obtain ⟨entry, there⟩ := Option.isSome_iff_exists.mp (mem_names.mp hname)
    have hact := fun before f hf => hact before f (mem_walkWithin_succ.mpr ⟨name, hf⟩)
    cases entry with
    | directory =>
      rw [there]
      exact ih inner (fun before f hf => hact before f (.inl ⟨there, hf⟩)) h
    | file data =>
      rw [there]
      exact hact before _ (.inr ⟨data, there, rfl⟩) s h

end Session

/-- A run over a directory, from what holds after every file of it. -/
theorem run_directory {words : List String} {P : List Found → Files → List String → Prop}
    (parsed : Options.parse words = .ok options) (hinput : options.input = .directory path)
    (loaded : Session.readSchema files options.schema = .ok schema)
    (located : files.locate path = .ok root) (there : files.entryAt? root = some .directory)
    (calm : ∀ before after printed, P before after printed → Undisturbed root files after)
    (start : P [] files [])
    (hentry : ∀ before, ∀ f ∈ files.walk path, ∀ s, P before s.files s.printed →
      Ends (Session.processEntry options schema f.path f.name) s
        (fun _ t => P (before ++ [f]) t.files t.printed) fun _ _ => False) :
    (run words files).ending = .success ∧
      P (files.walk path) (run words files).files (run words files).printed.reverse := by
  have walked : files.walkWithin (Session.levels options files) path root = files.walk path := by
    rw [walk_of_locate located]
    unfold Session.levels
    apply walkWithin_congr <;> omega
  have ends : Ends (Session.program options) (.initial files)
      (fun _ t => P (files.walk path) t.files t.printed) fun _ _ => False := by
    unfold Session.program Session.loadSchema
    rw [ends_bind, ends_bind, Session.ends_files]
    have loaded : Session.readSchema (Progress.initial files).files options.schema = .ok schema :=
      loaded
    rw [loaded]
    simp only [ends_bind, Session.ends_note, ends_pure, hinput]
    unfold Session.runDirectory
    rw [ends_bind, Session.ends_files]
    simp only [Progress.initial, located, find?_eq_some.mpr ⟨root, located, there⟩, ends_bind,
      Session.ends_note]
    rw [← walked] at hentry ⊢
    refine (Session.visit_ends (P := fun before s => P before s.files s.printed)
      (s := ⟨files, [], _, _⟩) (fun before s => calm before s.files s.printed) _ List.prefix_rfl
      hentry start).imp_done ?_
    exact fun _ t ht => ht
  obtain ⟨⟨⟩, t, hrun, ht⟩ := ends.exists_ok
  rw [run, parsed]
  unfold Options.run
  have hrun : (Session.program options).run (.initial files) = .ok () t := hrun
  simp only [hrun, List.reverse_reverse]
  exact ⟨trivial, ht⟩

end Command

end ByteSchema
