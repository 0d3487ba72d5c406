import ByteSchema.Proofs.Schema.Drafts

/-!
# Contents of fields are read from their trees

A tree that encodes the content of a field is read as this content, a bit field whatever the order
of its members.
-/

namespace ByteSchema

/-! ### Lists -/

theorem mapM_map {ε α β : Type} {read : β → Except ε α} {write : α → β}
    (h : ∀ a, read (write a) = .ok a) (as : List α) : (as.map write).mapM read = .ok as := by
  refine mapM_ok.mpr (List.forall₂_map_right_iff.mpr (List.forall₂_same.mpr ?_))
  exact fun a _ => h a

theorem foldlM_of_forall₂ {ε σ α β : Type} {step : σ → β → Except ε σ} {next : σ → α → σ}
    {as : List α} {items : List β}
    (h : List.Forall₂ (fun a item => ∀ s, step s item = .ok (next s a)) as items) (s : σ) :
    items.foldlM step s = .ok (as.foldl next s) := by
  induction h generalizing s with
  | nil => rfl
  | cons first _ ih =>
    rw [List.foldlM_cons, first]
    exact ih _

/-! ### Contents without nodes -/

namespace Content

theorem readByte_ofByte (b : UInt8) : readByte (.ofByte b) = .ok b := by
  have small : b.toUInt64 < 256 := by
    rw [UInt64.lt_iff_toNat_lt, UInt8.toNat_toUInt64]
    exact b.toNat_lt
  rw [Json.ofByte, readByte, if_pos small, UInt8.toUInt8_toUInt64]

theorem readItems_ofByte (bytes : List UInt8) :
    readItems readByte (.list (bytes.map .ofByte)) = .ok bytes :=
  mapM_map readByte_ofByte bytes

theorem readRange_ofByte (range : UInt8 × UInt8) :
    readRange (.list [.ofByte range.1, .ofByte range.2]) = .ok range := by
  rw [readRange, readByte_ofByte, readByte_ofByte]
  rfl

theorem readTerm_encodes {t : Term} {j : Json} (h : t.Encodes j) : readTerm j = .ok t := by
  rw [readTerm, Term.ofJson_encodes h]

theorem readOptionalText_elim (s : Option String) :
    readOptionalText (s.elim .null .text) = .ok s := by
  cases s <;> rfl

theorem readOptionalTerm_encodes {t : Option Term} {j : Json}
    (h : t.elim (j = .null) (fun t => t.Encodes j)) : readOptionalTerm j = .ok t := by
  cases t with
  | none =>
    obtain rfl : j = .null := h
    rfl
  | some t =>
    have read := readTerm_encodes h
    -- No term is written as null, so every form gets to the last case of the reader.
    cases h <;> (rw [readOptionalTerm, read] <;> first | rfl | nofun)

theorem readBasis_encodes {basis : Basis} {j : Json} (h : basis.Encodes j) :
    readBasis j = .ok basis := by
  cases h with
  | scope => rfl
  | global => rfl
  | @term t _ h =>
    have read := readTerm_encodes h
    -- Nor as a bare text, which could be one of the two names.
    cases h <;> (rw [readBasis, read] <;> first | rfl | nofun)

theorem readArguments_encodes {arguments : Arguments} {j : Json} (h : arguments.Encodes j) :
    readArguments j = .ok arguments := by
  cases h with
  | positional h =>
    rw [readArguments, mapM_ok.mpr (h.forall₂.imp fun _ _ encoded =>
      Term.ofJson_encodes encoded false)]
    rfl
  | @named terms members single h =>
    have read : members.mapM (fun m => do return (m.1, ← Term.ofJson false m.2)) =
        (.ok terms : Except TermFault _) := by
      refine mapM_ok.mpr (h.imp ?_)
      rintro ⟨name, term⟩ ⟨key, j⟩ ⟨rfl, encoded⟩
      dsimp only
      rw [Term.ofJson_encodes encoded]
      rfl
    rw [readArguments]
    dsimp only
    rw [read]
    dsimp only [bind, Except.bind, pure, Except.pure]
    rw [Table.foldl_insert single]
    rfl

theorem readChoice_text {α : Type} {ofName? : String → Option α} {name : String} {a : α}
    (h : ofName? name = some a) : readChoice ofName? (.text name) = .ok a := by
  rw [readChoice, readChoice.choose, h]

/-! ### Bits -/

theorem bitKindOfName?_name (kind : BitKind) : bitKindOfName? kind.name = some kind := by
  cases kind <;> rfl

/-- The slots of a draft, in the order of its fields. -/
def BitDraft.slots : List (Slot BitDraft) :=
  [⟨_, id, fun d s => { d with id := some s }, fun _ _ => rfl⟩,
    ⟨_, kind, fun d kind => { d with kind := some kind }, fun _ _ => rfl⟩,
    ⟨_, bits, fun d n => { d with bits := some n }, fun _ _ => rfl⟩]

theorem BitDraft.add_steps (m : String × Json) : Slot.Steps slots fun d => d.add m.1 m.2 := by
  obtain ⟨key, j⟩ := m
  dsimp only
  by_cases id : key = "id"
  · subst id
    exact .fills _ _ (.head _) fun _ => rfl
  by_cases kind : key = "type"
  · subst kind
    exact .fills _ _ (.tail _ (.head _)) fun _ => rfl
  by_cases bits : key = "bits"
  · subst bits
    exact .fills _ _ (.tail _ (.tail _ (.head _))) fun _ => rfl
  · exact .passes (.ok ()) fun d => by rw [add] <;> first | rfl | assumption

theorem BitDraft.add_commutes :
    Commutes fun (d : BitDraft) (m : String × Json) => d.add m.1 m.2 :=
  Slot.commutes (by simp [slots, Slot.Apart]) add_steps

theorem readBitField_encodes {b : BitField} {j : Json} (h : b.Encodes j) :
    readBitField j = .ok b := by
  obtain @⟨id, kind, members, hid, hkind, perm⟩ := h
  let step (d : BitDraft) (m : String × Json) : Except Mismatch BitDraft := d.add m.1 m.2
  have bits : step ⟨none, none, none⟩ ("bits", .ofByte b.bits) =
      .ok ⟨none, none, some b.bits⟩ := by
    show BitDraft.add _ _ _ = _
    rw [BitDraft.add, readByte_ofByte]
    rfl
  have ids : Takes step id ⟨none, none, some b.bits⟩ fun d =>
      d.id.getD none = b.id ∧ d.kind = none ∧ d.bits = some b.bits := by
    refine hid.takes ?_ fun blank => ⟨blank.symm, rfl, rfl⟩
    rintro key named j - rfl
    obtain rfl := List.mem_singleton.mp named
    refine ⟨⟨some b.id, none, some b.bits⟩, ?_, rfl, rfl, rfl⟩
    show BitDraft.add _ _ _ = _
    rw [BitDraft.add, readOptionalText_elim]
    rfl
  have kinds (d : BitDraft) (hd : d.id.getD none = b.id ∧ d.kind = none ∧ d.bits = some b.bits) :
      Takes step kind d fun d =>
        d.id.getD none = b.id ∧ d.kind.getD .uint = b.kind ∧ d.bits = some b.bits := by
    obtain ⟨hid, absent, hbits⟩ := hd
    refine hkind.takes ?_ fun blank => ⟨hid, by rw [absent, blank, Option.getD_none], hbits⟩
    rintro key named j - rfl
    obtain rfl := List.mem_singleton.mp named
    have read := readChoice_text (bitKindOfName?_name b.kind)
    refine ⟨{ d with kind := some b.kind }, ?_, hid, rfl, hbits⟩
    show BitDraft.add _ _ _ = _
    rw [BitDraft.add, absent, read]
    rfl
  obtain ⟨d, read, hid, hkind, hbits⟩ :=
    (Takes.cons bits (ids.append kinds)).perm BitDraft.add_commutes perm
  have all : BitDraft.addAll members = .ok d := read
  rw [readBitField, all]
  show d.toField _ = _
  rw [BitDraft.toField, hbits, hid, hkind]

end Content

open Content in
theorem Field.readContent_holds {f : Field} {content : f.Content} {j : Json}
    (h : f.Holds content j) : Field.readContent f j = .ok content := by
  cases f with
  | id | message =>
    obtain rfl := h
    rw [readContent, readText]
  | optionalId =>
    obtain rfl := h
    rw [readContent, readOptionalText_elim]
  | length | window | ref | condition | on | multiple | expr =>
    rw [readContent, readTerm_encodes h]
  | count | stopWhen | readUntil | emitWhen | maxLen =>
    rw [readContent, readOptionalTerm_encodes h]
  | bits =>
    obtain ⟨items, rfl, encoded⟩ := h
    rw [readContent, readItems]
    exact mapM_ok.mpr (encoded.imp fun _ _ => readBitField_encodes)
  | params => rw [readContent, readArguments_encodes h]
  | basis => rw [readContent, readBasis_encodes h]
  | byteOrder =>
    obtain ⟨named⟩ := h
    rw [readContent, readChoice_text named]
  | terminators | seq | values =>
    obtain rfl := h
    rw [readContent, readItems_ofByte]
  | marker =>
    obtain rfl := h
    rw [readContent, readByte_ofByte]
  | ranges =>
    obtain rfl := h
    rw [readContent, readItems]
    exact mapM_map readRange_ofByte content
  | items | spec | otherwise | cases | default => exact h.elim

end ByteSchema
