import ByteSchema.Command.Run
import ByteSchema.Proofs.Decode.Ends

/-!
# What every step of a run keeps

Apart from delivering a record, no step of a session changes files or prints. So a relation between
the progress before and after, transitive and with nothing against notes and counts, holds for whole
runs when it holds for deliveries: `program_respects`.
-/

namespace ByteSchema.Command

open ByteSchema

/-- The files that a run may decode. -/
inductive IsInput (options : Options) : String → Prop
  | file {path : String} : options.input = .file path → IsInput options path
  | below {path name : String} {names : List String} : options.input = .directory path →
      Session.isHidden name = false → Session.isFiltered options name = false →
      IsInput options (FilePath.join (names.foldl FilePath.join path) name)

/-- The decode comes to a record or an error, and does not take the program with it. -/
def decodeEnds (setting : Setting) (data : List UInt8) : Bool :=
  match (decode setting data).result with
  | .ok _ | .error (.failed _) => true
  | .error .overflow | .error .exhausted => false

theorem failed_of_decodeEnds {setting : Setting} {data : List UInt8} {halt : Halt}
    (ended : decodeEnds setting data = true) (halted : (decode setting data).result = .error halt) :
    ∃ e, halt = .failed e := by
  rw [decodeEnds, halted] at ended
  cases halt with
  | failed e => exact ⟨e, rfl⟩
  | overflow | exhausted => cases ended

/-- A record that an input has, with the files as they are. -/
def Decodes (options : Options) (schema : Schema) (files : Files) (input : String)
    (record : Record) : Prop :=
  ∃ data, files.read input = .ok data ∧
    (decode (Session.setting options schema) data).result = .ok record

namespace Session

/-! ### Single steps -/

section Steps

variable {s : Progress} {unit : Unit → Progress → Prop} {halts : Interrupt → Progress → Prop}

@[simp] theorem ends_files {done : Files → Progress → Prop} :
    Ends files s done halts ↔ done s.files s :=
  Iff.rfl

@[simp] theorem ends_setFiles {files : Files} :
    Ends (setFiles files) s unit halts ↔ unit () { s with files := files } :=
  Iff.rfl

@[simp] theorem ends_print {line : String} :
    Ends (print line) s unit halts ↔ unit () { s with printed := line :: s.printed } :=
  Iff.rfl

@[simp] theorem ends_note {level : Level} {message : String} :
    Ends (note level message) s unit halts ↔
      unit () { s with notes := ⟨level, message⟩ :: s.notes } :=
  Iff.rfl

@[simp] theorem ends_noteAll {log : Log} : Ends (noteAll log) s unit halts ↔
    unit () { s with notes := log.map (fun e => ⟨e.level, e.text⟩) ++ s.notes } :=
  Iff.rfl

@[simp] theorem ends_count {f : Tally → Tally} :
    Ends (count f) s unit halts ↔ unit () { s with tally := f s.tally } :=
  Iff.rfl

@[simp] theorem ends_fail {α : Type} {done : α → Progress → Prop} {f : Failure} :
    Ends (fail f : Session α) s done halts ↔ halts (.failed f) s :=
  Iff.rfl

/-- An input is read and decoded without an effect on files or print. Where its decode comes to an
end, it is only a failure that is left of one without a record. -/
theorem decodeInput_ends (options : Options) (schema : Schema) (input : String) (s : Progress) :
    Ends (decodeInput options schema input) s
      (fun record t => t.files = s.files ∧ t.printed = s.printed ∧
        Decodes options schema s.files input record)
      (fun interrupt t => t.files = s.files ∧ t.printed = s.printed ∧
        (∀ record, ¬ Decodes options schema s.files input record) ∧
        ∀ data, s.files.read input = .ok data → decodeEnds (setting options schema) data = true →
          ∃ failure, interrupt = .failed failure) := by
  unfold decodeInput
  simp only [ends_bind, ends_note, ends_files]
  split
  · next data read =>
    simp only [ends_bind, ends_pure, ends_noteAll]
    split
    · next halt halted =>
      refine ⟨rfl, rfl, ?_, ?_⟩
      · rintro record ⟨other, read', decoded⟩
        rw [read] at read'
        cases read'
        rw [halted] at decoded
        cases decoded
      · intro other read' ended
        rw [read] at read'
        cases read'
        obtain ⟨e, rfl⟩ := failed_of_decodeEnds ended halted
        exact ⟨_, rfl⟩
    · next record decoded =>
      simp only [ends_bind, ends_count, ends_note, ends_pure]
      exact ⟨trivial, trivial, data, read, decoded⟩
  · next fault unread =>
    refine ⟨rfl, rfl, ?_, fun _ _ _ => ⟨_, rfl⟩⟩
    rintro record ⟨data, read, -⟩
    rw [unread] at read
    cases read

theorem loadSchema_ends (path : String) (s : Progress) :
    Ends (loadSchema path) s
      (fun schema t => readSchema s.files path = .ok schema ∧ t.files = s.files ∧
        t.printed = s.printed)
      (fun _ t => t.files = s.files ∧ t.printed = s.printed ∧
        ∀ schema, readSchema s.files path ≠ .ok schema) := by
  unfold loadSchema
  rw [ends_bind, ends_files]
  split
  · next schema read => exact ⟨read, rfl, rfl⟩
  · next e unread =>
    refine ⟨rfl, rfl, fun schema read => ?_⟩
    rw [unread] at read
    cases read

end Steps

/-! ### Relations that runs respect -/

variable {α β : Type} {options : Options} {schema : Schema} {R : Progress → Progress → Prop}

/-- However `m` ends, the progress is then related to the progress before. -/
def Respects (R : Progress → Progress → Prop) (m : Session α) : Prop :=
  ∀ s, Ends m s (fun _ t => R s t) fun _ t => R s t

/-- A transitive relation that has nothing against steps without an effect on files or print. -/
structure Quiet (R : Progress → Progress → Prop) : Prop where
  quiet {s t : Progress} : t.files = s.files → t.printed = s.printed → R s t
  trans {s t u : Progress} : R s t → R t u → R s u

/-- A quiet relation that also holds where a record is delivered. -/
structure Ledger (options : Options) (schema : Schema) (R : Progress → Progress → Prop) : Prop
    extends Quiet R where
  delivers {s : Progress} {input : String} {record : Record} (headed : Bool) :
    IsInput options input → Decodes options schema s.files input record →
    Ends (deliver options input (render options.format record) headed) s
      (fun _ t => R s t) fun _ t => R s t

namespace Quiet

section

variable (h : Quiet R)
include h

theorem pure (a : α) : Respects R (pure a : Session α) := fun _ => h.quiet rfl rfl

theorem throw (interrupt : Interrupt) : Respects R (throw interrupt : Session α) :=
  fun _ => h.quiet rfl rfl

theorem note (level : Level) (message : String) : Respects R (note level message) :=
  fun _ => h.quiet rfl rfl

theorem count (f : Tally → Tally) : Respects R (count f) := fun _ => h.quiet rfl rfl

theorem summarize : Respects R summarize := fun _ => h.quiet rfl rfl

theorem bind {m : Session β} {f : β → Session α} (hm : Respects R m)
    (hf : ∀ b, Respects R (f b)) : Respects R (m >>= f) := by
  intro s
  rw [ends_bind]
  refine (hm s).imp_done fun b t hst => ?_
  exact (hf b t).imp (fun _ _ => h.trans hst) fun _ _ => h.trans hst

theorem tryCatch {m : Session α} {handler : Interrupt → Session α} (hm : Respects R m)
    (hhandler : ∀ interrupt, Respects R (handler interrupt)) :
    Respects R (tryCatch m handler) := by
  intro s
  rw [ends_tryCatch]
  refine (hm s).imp (fun _ _ => id) fun interrupt t hst => ?_
  exact (hhandler interrupt t).imp (fun _ _ => h.trans hst) fun _ _ => h.trans hst

theorem rescue (path : String) (interrupt : Interrupt) : Respects R (rescue path interrupt) := by
  cases interrupt with
  | failed failure => exact h.bind (h.note _ _) fun _ => h.count _
  | overflow | exhausted => exact h.throw _

theorem forM {f : β → Session Unit} (items : List β) (hf : ∀ b, Respects R (f b)) :
    Respects R (items.forM f) := by
  induction items with
  | nil => exact h.pure ()
  | cons first rest ih => exact h.bind (hf first) fun _ => ih

end

end Quiet

theorem respects_files {f : Files → Session α} (hf : ∀ files, Respects R (f files)) :
    Respects R (files >>= f) :=
  fun s => hf s.files s

/-- A walk respects what the act on every file below the directory does. -/
theorem visit_respects {act : String → String → Session Unit} (h : Quiet R) (levels : Nat)
    (path : String) (location : Location)
    (hact : ∀ (names : List String) (name : String),
      Respects R (act (FilePath.join (names.foldl FilePath.join path) name) name)) :
    Respects R (visit act levels path location) := by
  induction levels generalizing path location with
  | zero => exact h.pure ()
  | succ levels ih =>
    unfold visit
    refine respects_files fun files => h.forM _ fun name => respects_files fun files => ?_
    split
    · exact ih _ _ fun names => hact (name :: names)
    · exact hact [] name
    · exact h.pure ()

namespace Ledger

variable (h : Ledger options schema R)
include h

theorem process {input : String} (selected : IsInput options input) (headed : Bool) :
    Respects R (process options schema input headed) := by
  intro s
  unfold Session.process
  rw [ends_bind]
  refine (decodeInput_ends options schema input s).imp
    (fun record t ⟨files, printed, decoded⟩ => ?_)
    fun _ t ⟨files, printed, _⟩ => h.quiet files printed
  have before : R s t := h.quiet files printed
  rw [← files] at decoded
  exact (h.delivers headed selected decoded).imp (fun _ _ => h.trans before)
    fun _ _ => h.trans before

theorem runFile {path : String} (hinput : options.input = .file path) :
    Respects R (runFile options schema path) := by
  unfold Session.runFile
  refine respects_files fun files => ?_
  split
  · exact h.throw _
  · exact h.throw _
  · refine h.bind (h.process (.file hinput) false) fun _ => ?_
    split
    · exact h.summarize
    · exact h.pure ()

theorem processEntry {path name : String}
    (selected : isHidden name = false → isFiltered options name = false → IsInput options path) :
    Respects R (processEntry options schema path name) := by
  unfold Session.processEntry
  split
  · exact h.pure ()
  · next shown =>
    split
    · exact h.note _ _
    · next kept =>
      have input := selected (eq_false_of_ne_true shown) (eq_false_of_ne_true kept)
      exact h.bind (h.note _ _) fun _ => h.tryCatch (h.process input true) (h.rescue path)

theorem runDirectory {path : String} (hinput : options.input = .directory path) :
    Respects R (runDirectory options schema path) := by
  unfold Session.runDirectory
  refine respects_files fun files => ?_
  split
  · refine h.bind (h.note _ _) fun _ => h.bind ?_ fun _ => h.summarize
    exact visit_respects h.toQuiet _ _ _ fun names name =>
      h.processEntry fun shown kept => .below hinput shown kept
  · exact h.throw _
  · exact h.throw _

end Ledger

theorem program_respects {s : Progress} (h : Quiet R) (hloaded : ∀ schema,
      readSchema s.files options.schema = .ok schema → Ledger options schema R) :
    Ends (program options) s (fun _ t => R s t) (fun _ t => R s t) := by
  unfold program
  rw [ends_bind]
  refine (loadSchema_ends options.schema s).imp (fun schema t ⟨read, files, printed⟩ => ?_)
    fun _ t ⟨files, printed, _⟩ => h.quiet files printed
  have ledger := hloaded schema read
  have before : R s t := h.quiet files printed
  split
  · next path hinput =>
    exact (ledger.runFile hinput t).imp (fun _ _ => h.trans before) fun _ _ => h.trans before
  · next path hinput =>
    exact (ledger.runDirectory hinput t).imp (fun _ _ => h.trans before) fun _ _ => h.trans before

end Session

end ByteSchema.Command
