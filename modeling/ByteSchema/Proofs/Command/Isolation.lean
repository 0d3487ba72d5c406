import ByteSchema.Proofs.Command.Outputs
import ByteSchema.Proofs.Command.Scanning

/-!
# A file that fails leaves no trace in print

What a run over a directory prints is put together from one section for each file, and nothing but
the file determines its section: `directory_sections`. Files that are not selected and files that
fail have an empty section, so adding or removing them changes nothing.
-/

namespace ByteSchema.Command

open ByteSchema.Files

/-- Two walks with the same files in the same order, but for files that are silent. -/
inductive SameBut (silent : Found → Prop) : List Found → List Found → Prop
  | nil : SameBut silent [] []
  | both {f g : Found} {fs gs : List Found} : f.path = g.path → f.name = g.name → f.data = g.data →
      SameBut silent fs gs → SameBut silent (f :: fs) (g :: gs)
  | left {f : Found} {fs gs : List Found} : silent f → SameBut silent fs gs →
      SameBut silent (f :: fs) gs
  | right {g : Found} {fs gs : List Found} : silent g → SameBut silent fs gs →
      SameBut silent fs (g :: gs)

variable {options : Options} {schema : Schema} {files : Files} {path : String} {f g : Found}

def Options.sectionOf (options : Options) (schema : Schema) (f : Found) : String :=
  match options.recordOf? schema f with
  | some record => s!"==> {f.path} <==" ++ "\n" ++ render options.format record ++ "\n"
  | none => ""

/-- Not selected, or without a record. -/
def Silent (options : Options) (schema : Schema) (f : Found) : Prop :=
  Session.isHidden f.name = true ∨ Session.isFiltered options f.name = true ∨
    ∀ record, (decode (Session.setting options schema) f.data).result ≠ .ok record

theorem silent_iff : Silent options schema f ↔ options.recordOf? schema f = none := by
  rw [Option.eq_none_iff_forall_ne_some]
  constructor
  · intro silent record due
    obtain ⟨shown, kept, decoded⟩ := recordOf?_eq_some.mp due
    rcases silent with hidden | filtered | undecoded
    · rw [shown] at hidden
      cases hidden
    · rw [kept] at filtered
      cases filtered
    · exact undecoded record decoded
  · intro undue
    by_cases hidden : Session.isHidden f.name = true
    · exact .inl hidden
    by_cases filtered : Session.isFiltered options f.name = true
    · exact .inr (.inl filtered)
    refine .inr (.inr fun record decoded => undue record ?_)
    exact recordOf?_eq_some.mpr
      ⟨eq_false_of_ne_true hidden, eq_false_of_ne_true filtered, decoded⟩

theorem sectionOf_of_silent (h : Silent options schema f) : options.sectionOf schema f = "" := by
  rw [Options.sectionOf, silent_iff.mp h]

theorem sectionOf_congr (path : f.path = g.path) (name : f.name = g.name) (data : f.data = g.data) :
    options.sectionOf schema f = options.sectionOf schema g := by
  simp only [Options.sectionOf, Options.recordOf?, path, name, data]

theorem SameBut.join_sections {fs gs : List Found} (h : SameBut (Silent options schema) fs gs) :
    String.join (fs.map (options.sectionOf schema)) =
      String.join (gs.map (options.sectionOf schema)) := by
  induction h with
  | nil => rfl
  | both path name data _ ih => simp [ih, sectionOf_congr path name data]
  | left silent _ ih => simp [ih, sectionOf_of_silent silent]
  | right silent _ ih => simp [ih, sectionOf_of_silent silent]

/-- The text of lines that are kept newest first. -/
def textOf (printed : List String) : String := String.join (printed.reverse.map (· ++ "\n"))

theorem processEntry_prints (houtput : options.output = none) {s : Progress}
    (read : s.files.read f.path = .ok f.data)
    (ended : Session.isHidden f.name = false → Session.isFiltered options f.name = false →
      decodeEnds (Session.setting options schema) f.data = true) :
    Ends (Session.processEntry options schema f.path f.name) s
      (fun _ t => t.files = s.files ∧
        textOf t.printed = textOf s.printed ++ options.sectionOf schema f) fun _ _ => False := by
  refine Session.processEntry_ends (P := fun after printed => after = s.files ∧
    textOf printed = textOf s.printed ++ options.sectionOf schema f) read ended ?_ ?_
  · intro undue
    simp [Options.sectionOf, undue]
  · intro record due t same printed
    unfold Session.deliver
    simp only [houtput, if_true, ends_bind, Session.ends_print]
    refine ⟨same, ?_⟩
    simp [textOf, printed, Options.sectionOf, due, String.join_append, String.append_assoc]

theorem run_sections {words : List String} (parsed : Options.parse words = .ok options)
    (hinput : options.input = .directory path) (houtput : options.output = none)
    (loaded : Session.readSchema files options.schema = .ok schema) (sound : files.Sound)
    (there : files.find? path = some .directory)
    (ended : options.decodesEnd schema (files.walk path) = true) :
    (run words files).ending = .success ∧ (run words files).output =
      String.join ((files.walk path).map (options.sectionOf schema)) := by
  obtain ⟨root, located, inside⟩ := find?_eq_some.mp there
  have hpath : path ≠ "" := by
    have spelt := (Options.parse_paths parsed).2.1
    rwa [hinput] at spelt
  -- after the files `before`, nothing has changed and their sections are what is printed
  obtain ⟨ending, -, printed⟩ := run_directory (P := fun before after printed => after = files ∧
      textOf printed = String.join (before.map (options.sectionOf schema))) parsed hinput loaded
    located inside (fun before after printed ⟨same, _⟩ => same ▸ Undisturbed.refl root files)
    ⟨rfl, rfl⟩ (by
      intro before f hf s ⟨same, printed⟩
      have read := (Undisturbed.refl root files).read sound hpath located inside hf
      rw [← same] at read
      have ended := decodeEnds_of_mem ended hf
      refine (processEntry_prints houtput read ended).imp_done fun _ t ⟨same', printed'⟩ => ?_
      refine ⟨same'.trans same, ?_⟩
      rw [printed', printed, List.map_append, String.join_append]
      simp)
  refine ⟨ending, ?_⟩
  rwa [textOf, List.reverse_reverse] at printed

/-- A run over a directory without an output directory, where all decodes come to an end, succeeds
and prints the sections of the files in it. Files that are silent can come and go, and the print
stays as it is. -/
theorem directory_sections {words : List String} (parsed : Options.parse words = .ok options)
    (hinput : options.input = .directory path) (houtput : options.output = none)
    (loaded : Session.readSchema files options.schema = .ok schema) (sound : files.Sound)
    (there : files.find? path = some .directory)
    (ended : options.decodesEnd schema (files.walk path) = true) :
    (run words files).ending = .success ∧
      (run words files).output = String.join ((files.walk path).map (options.sectionOf schema)) ∧
      ∀ other : Files, Session.readSchema other options.schema = .ok schema → other.Sound →
        other.find? path = some .directory →
        options.decodesEnd schema (other.walk path) = true →
        SameBut (Silent options schema) (files.walk path) (other.walk path) →
        (run words other).output = (run words files).output := by
  obtain ⟨ending, printed⟩ := run_sections parsed hinput houtput loaded sound there ended
  refine ⟨ending, printed, ?_⟩
  intro other loaded' sound' there' ended' same
  obtain ⟨-, printed'⟩ := run_sections parsed hinput houtput loaded' sound' there' ended'
  rw [printed, printed', same.join_sections]

namespace CommandSample

/-- A directory with a hidden file and one that is too short. -/
def mixed : Files where
  here := []
  entries := tree.entries.take 3 ++ [
    (["in", ".hidden"], .file [1]),
    (["in", "b"], .file []),
    (["in", "sub"], .directory),
    (["in", "sub", "c"], .file [8])]

/-- The same directory without them, and with another short one. -/
def weeded : Files where
  here := []
  entries := tree.entries.take 4 ++ [
    (["in", "sub", "c"], .file [8]),
    (["in", "sub", "d"], .file [])]

def showing : Options := { storing with output := none }

end CommandSample

open CommandSample in
theorem directory_sections_mixed :
    (run ["-s", "s", "-d", "in"] mixed).ending = .success ∧
      (run ["-s", "s", "-d", "in"] weeded).output = (run ["-s", "s", "-d", "in"] mixed).output ∧
      (run ["-s", "s", "-d", "in"] mixed).output =
        "==> in/a <==\n\x7b\n  \"n\": 7\n\x7d\n==> in/sub/c <==\n\x7b\n  \"n\": 8\n\x7d\n" := by
  have parsed : Options.parse ["-s", "s", "-d", "in"] = .ok showing := rfl
  have walked : mixed.walk "in" = [⟨"in/.hidden", ["in"], ".hidden", [1]⟩,
      ⟨"in/a", ["in"], "a", [7]⟩, ⟨"in/b", ["in"], "b", []⟩,
      ⟨"in/sub/c", ["in", "sub"], "c", [8]⟩] := by decide +kernel
  have walked' : weeded.walk "in" = [⟨"in/a", ["in"], "a", [7]⟩,
      ⟨"in/sub/c", ["in", "sub"], "c", [8]⟩,
      ⟨"in/sub/d", ["in", "sub"], "d", []⟩] := by decide +kernel
  have loads : ((Session.readSchema mixed "s").map fun schema =>
      (((showing.recordOf? schema ⟨"in/b", ["in"], "b", []⟩).isNone &&
        (showing.recordOf? schema ⟨"in/sub/d", ["in", "sub"], "d", []⟩).isNone &&
        showing.decodesEnd schema (mixed.walk "in") &&
        showing.decodesEnd schema (weeded.walk "in") : Bool),
        String.join ((mixed.walk "in").map (showing.sectionOf schema)))).toOption =
      some (true,
        "==> in/a <==\n\x7b\n  \"n\": 7\n\x7d\n==> in/sub/c <==\n\x7b\n  \"n\": 8\n\x7d\n") := by
    decide +kernel
  obtain ⟨schema, loaded, both⟩ := exists_of_map loads
  obtain ⟨unread, text⟩ := Prod.mk.inj both
  simp only [Bool.and_eq_true, Option.isNone_iff_eq_none] at unread
  obtain ⟨⟨⟨short, shorter⟩, ended⟩, ended'⟩ := unread
  obtain ⟨ending, printed, isolated⟩ := directory_sections parsed rfl rfl loaded
    (by decide +kernel) (by decide +kernel) ended
  refine ⟨ending, isolated weeded loaded (by decide +kernel) (by decide +kernel) ended' ?_,
    printed.trans text⟩
  rw [walked, walked']
  refine .left (.inl (by decide +kernel)) (.both rfl rfl rfl ?_)
  refine .left (silent_iff.mpr short) (.both rfl rfl rfl ?_)
  exact .right (silent_iff.mpr shorter) .nil

end ByteSchema.Command
