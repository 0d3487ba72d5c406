import ByteSchema.Command.Arguments
import ByteSchema.Proofs.Decode.Ends

/-!
# Paths on the command line

No word makes an empty path, so `Given.Spelt` holds of what is given after any number of words and
the paths of the options that are read lead somewhere relative to where they start.
-/

namespace ByteSchema.Command

namespace Given

variable {g g' : Given} {switch : Switch} {value word : String}

structure Spelt (g : Given) : Prop where
  schema : g.schema ≠ some ""
  file : g.file ≠ some ""
  directory : g.directory ≠ some ""
  output : g.output ≠ some ""

theorem spelt_empty : Spelt empty := by
  constructor <;> exact nofun

theorem once_path {old new : Option String} (h : once switch old value (path? value) = .ok new) :
    new ≠ some "" := by
  unfold once at h
  split at h
  · cases h
  · cases h
  · next given =>
    cases h
    unfold path? at given
    split at given
    · cases given
    · next text =>
      intro blank
      apply text
      rw [← given] at blank
      exact Option.some.inj blank

theorem Spelt.give (h : Spelt g) (hgive : g.give switch value = .ok g') : Spelt g' := by
  cases switch <;> unfold Given.give at hgive <;> dsimp only at hgive
  case schema =>
    obtain ⟨new, given, ⟨⟩⟩ := bind_ok hgive
    exact { h with schema := once_path given }
  case file =>
    obtain ⟨new, given, ⟨⟩⟩ := bind_ok hgive
    exact { h with file := once_path given }
  case directory =>
    obtain ⟨new, given, ⟨⟩⟩ := bind_ok hgive
    exact { h with directory := once_path given }
  case output =>
    obtain ⟨new, given, ⟨⟩⟩ := bind_ok hgive
    exact { h with output := once_path given }
  case verbose =>
    cases hgive
    exact { h with }
  case help => cases hgive
  case version => cases hgive
  all_goals
    obtain ⟨new, -, ⟨⟩⟩ := bind_ok hgive
    exact { h with }

theorem Spelt.long (h : Spelt g) {name : List Char} (hlong : g.long word name = .ok g') :
    Spelt g' := by
  unfold Given.long at hlong
  dsimp only at hlong
  split at hlong
  · cases hlong
  · split at hlong
    · exact h.give hlong
    · cases hlong
  · split at hlong
    · cases hlong
      exact { h with }
    · exact h.give hlong

theorem Spelt.letters (h : Spelt g) {cs : List Char} (hletters : g.letters word cs = .ok g') :
    Spelt g' := by
  induction cs generalizing g with
  | nil =>
    cases hletters
    exact h
  | cons c rest ih =>
    unfold Given.letters at hletters
    split at hletters
    · cases hletters
    · split at hletters
      · split at hletters
        · cases hletters
          exact { h with }
        · exact h.give hletters
        · exact h.give hletters
      · obtain ⟨next, hgive, hletters⟩ := bind_ok hletters
        exact ih (h.give hgive) hletters

theorem Spelt.add (h : Spelt g) (hadd : g.add word = .ok g') : Spelt g' := by
  unfold Given.add at hadd
  split at hadd
  · cases hadd
  · split at hadd
    · cases hadd
    · have before : Spelt { g with pending := none } := { h with }
      exact before.give hadd
  · split at hadd
    · cases hadd
      exact { h with }
    · exact h.long hadd
    · exact h.letters hadd
    · cases hadd

theorem Spelt.foldlM_add {words : List String} (h : Spelt g)
    (hadd : words.foldlM Given.add g = .ok g') : Spelt g' := by
  induction words generalizing g with
  | nil =>
    cases hadd
    exact h
  | cons word rest ih =>
    rw [List.foldlM_cons] at hadd
    obtain ⟨next, first, hadd⟩ := bind_ok hadd
    exact ih (h.add first) hadd

end Given

def Input.path : Input → String
  | .file path => path
  | .directory path => path

theorem Given.Spelt.input {g : Given} (h : g.Spelt) {input : Input} (hinput : g.input = .ok input) :
    input.path ≠ "" := by
  unfold Given.input at hinput
  split at hinput
  · cases hinput
  · next path given _ =>
    cases hinput
    rintro rfl
    exact h.file given
  · next path _ given =>
    cases hinput
    rintro rfl
    exact h.directory given
  · cases hinput

theorem Options.parse_paths {words : List String} {options : Options}
    (h : Options.parse words = .ok options) :
    options.schema ≠ "" ∧ options.input.path ≠ "" ∧ options.output ≠ some "" := by
  unfold Options.parse at h
  obtain ⟨g, hadd, h⟩ := bind_ok h
  have spelt := Given.spelt_empty.foldlM_add hadd
  unfold Given.finish at h
  split at h
  · cases h
  · cases h
  · next schema given =>
    obtain ⟨input, hinput, ⟨⟩⟩ := bind_ok h
    refine ⟨?_, spelt.input hinput, spelt.output⟩
    rintro rfl
    exact spelt.schema given

end ByteSchema.Command
