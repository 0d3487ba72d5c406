import ByteSchema.Proofs.Json.Reading
import ByteSchema.Proofs.Schema.Nodes

/-!
# Schemas are read from their trees

A tree without faults is read at every number of levels that holds it, whatever the order of its
members: `ofSource_encodes`. The levels go down along the way to a value in a node.
-/

namespace ByteSchema

namespace Schema

open Json (Source depth)
open Json.Source (ofJson ofItems ofMembers)

theorem readValue_ofJson {j : Json} {levels : Nat} (shallow : depth j ≤ levels) :
    readValue levels (ofJson j) = .ok j := by
  rw [readValue, Source.strict_ofJson j levels shallow]
  rfl

theorem readItems_ofJson {α : Type} {read : Source → Except Mismatch α} {as : List α}
    {items : List Json} (h : List.Forall₂ (fun a j => read (ofJson j) = .ok a) as items) :
    readItems read (ofJson (.list items)) = .ok as := by
  have all : (ofItems items).mapM read = .ok as := by
    rw [Source.ofItems_eq]
    exact mapM_ok.mpr (List.forall₂_map_right_iff.mpr h)
  rw [ofJson, readItems, all]
  rfl

theorem readMembers_ofJson {α : Type} {names : List String}
    {add : α → String → Source → Except Mismatch α} {start all : α}
    {members : List (String × Json)}
    (h : members.foldlM (fun a m => add a m.1 (ofJson m.2)) start = .ok all) :
    readMembers names add start (ofJson (.object members)) = .ok all := by
  rw [ofJson, readMembers, Source.ofMembers_eq, List.foldlM_map]
  exact congrArg (· >>= _) h

/-! ### Nodes -/

theorem readParts_untagged {levels : Nat} {kind : Option NodeKind}
    {members : List (String × Json)} (untagged : ∀ m ∈ members, m.1 ≠ "type")
    (shallow : ∀ m ∈ members, depth m.2 ≤ levels) :
    readParts levels kind (ofMembers members) = .ok (kind, members) := by
  induction members with
  | nil => rfl
  | cons m members ih =>
    obtain ⟨ne, untagged⟩ := List.forall_mem_cons.mp untagged
    obtain ⟨first, shallow⟩ := List.forall_mem_cons.mp shallow
    rw [ofMembers, readParts]
    show (if m.1 = "type" then _ else _) = _
    rw [if_neg ne, readValue_ofJson first, ih untagged shallow]
    rfl

theorem readParts_tagged {levels : Nat} {kind : NodeKind} {before after : List (String × Json)}
    (untagged : ∀ m ∈ before ++ after, m.1 ≠ "type")
    (shallow : ∀ m ∈ before ++ after, depth m.2 ≤ levels) :
    readParts levels none (ofMembers (before ++ ("type", .text kind.tag) :: after)) =
      .ok (some kind, before ++ after) := by
  induction before with
  | nil =>
    have tag : readTag (ofJson (.text kind.tag)) = .ok kind := by
      rw [ofJson, readTag, NodeKind.ofJson, kind.ofTag?_tag]
    rw [List.nil_append, ofMembers, readParts, tag]
    exact readParts_untagged untagged shallow
  | cons m before ih =>
    obtain ⟨ne, untagged⟩ := List.forall_mem_cons.mp untagged
    obtain ⟨first, shallow⟩ := List.forall_mem_cons.mp shallow
    rw [List.cons_append, ofMembers, readParts]
    show (if m.1 = "type" then _ else _) = _
    rw [if_neg ne, readValue_ofJson first, ih untagged shallow]
    rfl

theorem readNode_encodes {node : Node} {j : Json} (h : node.Encodes j) {levels : Nat}
    (shallow : depth j ≤ levels + 1) : readNode levels (ofJson j) = .ok node := by
  obtain @⟨_, parts, members, h, perm⟩ := h
  obtain ⟨read, h⟩ := Node.fields_read h
  obtain ⟨before, after, rfl, perm, untagged⟩ := h.split perm
  have values : ∀ m ∈ before ++ after, depth m.2 ≤ levels := by
    rw [depth, Nat.add_le_add_iff_right, Json.depthMembers_le] at shallow
    intro m hm
    exact shallow m ((List.perm_middle.mem_iff).mpr (.tail _ hm))
  rw [ofJson, readNode, readParts_tagged untagged values]
  exact Node.toNode_of_read h perm

theorem readBlock_encodes {nodes : List Node} {items : List Json}
    (h : Node.EncodesAll nodes items) {levels : Nat} (shallow : depth (.list items) ≤ levels + 2) :
    readItems (readNode levels) (ofJson (.list items)) = .ok nodes := by
  rw [depth, Nat.add_le_add_iff_right, Json.depthItems_le] at shallow
  refine readItems_ofJson (List.forall₂_iff_zip.mpr ⟨h.forall₂.length_eq, ?_⟩)
  intro node j pair
  have encoded := (List.forall₂_iff_zip.mp h.forall₂).2 pair
  exact readNode_encodes encoded (shallow j (List.of_mem_zip pair).2)

/-! ### Templates -/

/-- The slots of a draft, in the order of its fields. -/
def TemplateDraft.slots : List (Slot TemplateDraft) :=
  [⟨_, parameters, fun d names => { d with parameters := some names }, fun _ _ => rfl⟩,
    ⟨_, spec, fun d nodes => { d with spec := some nodes }, fun _ _ => rfl⟩]

theorem TemplateDraft.add_steps (levels : Nat) (m : String × Json) :
    Slot.Steps slots fun d => d.add levels m.1 (ofJson m.2) := by
  obtain ⟨key, j⟩ := m
  dsimp only
  by_cases parameters : key = "params"
  · subst parameters
    exact .fills _ _ (.head _) fun _ => rfl
  by_cases spec : key = "spec"
  · subst spec
    exact .fills _ _ (.tail _ (.head _)) fun _ => rfl
  · exact .passes (ignore (ofJson j)) fun d => by rw [add] <;> assumption

theorem TemplateDraft.add_commutes (levels : Nat) :
    Commutes fun (d : TemplateDraft) (m : String × Json) => d.add levels m.1 (ofJson m.2) :=
  Slot.commutes (by simp [slots, Slot.Apart]) (add_steps levels)

theorem readTexts (names : List String) :
    readItems readText (ofJson (.list (names.map .text))) = .ok names := by
  refine readItems_ofJson (List.forall₂_map_right_iff.mpr (List.forall₂_same.mpr ?_))
  intro name _
  rw [ofJson, readText]

/-- Two levels are used up by the table of the templates and the object around it. -/
theorem readTemplate_encodes {t : Template} {j : Json} (h : t.Encodes j) {levels : Nat}
    (shallow : depth j ≤ levels - 2) : readTemplate levels (ofJson j) = .ok t := by
  obtain @⟨items, parameters, members, hspec, hparameters, perm⟩ := h
  let step (d : TemplateDraft) (m : String × Json) : Except Mismatch TemplateDraft :=
    d.add levels m.1 (ofJson m.2)
  have spec : step ⟨none, none⟩ ("spec", .list items) = .ok ⟨none, some t.spec⟩ := by
    have inside : depth (.list items) ≤ Json.depthMembers members :=
      Json.depthMembers_le.mp (Nat.le_refl _) _ (perm.mem_iff.mpr List.mem_cons_self)
    rw [depth] at shallow
    show TemplateDraft.add _ _ _ _ = _
    rw [TemplateDraft.add, readBlock_encodes hspec (by omega)]
    rfl
  have names : Takes step parameters ⟨none, some t.spec⟩ fun d =>
      d.parameters.getD [] = t.parameters ∧ d.spec = some t.spec := by
    refine hparameters.takes ?_ fun blank => ⟨blank.symm, rfl⟩
    rintro key named j - rfl
    obtain rfl := List.mem_singleton.mp named
    refine ⟨⟨some t.parameters, some t.spec⟩, ?_, rfl, rfl⟩
    show TemplateDraft.add _ _ _ _ = _
    rw [TemplateDraft.add, readTexts]
    rfl
  obtain ⟨d, read, parameters, spec⟩ :=
    (Takes.cons spec names).perm (TemplateDraft.add_commutes levels) perm
  rw [readTemplate, readMembers_ofJson read]
  dsimp only [bind, Except.bind]
  rw [ofJson, need, parameters, spec]
  · rfl
  · exact nofun

theorem readTemplates_encodes {templates : List (String × Template)} {j : Json}
    (h : Template.EncodesAll templates j) {levels : Nat} (shallow : depth j ≤ levels - 1) :
    readTemplates levels (ofJson j) = .ok templates := by
  obtain @⟨members, single, h⟩ := h
  have inside : ∀ m ∈ members, depth m.2 ≤ levels - 2 := by
    rw [← Json.depthMembers_le]
    rw [depth] at shallow
    omega
  let step (all : List (String × Template)) (m : Source × Source) :
      Except Mismatch (List (String × Template)) := do
    let name ← readName m.1
    return Table.insert all name (← readTemplate levels m.2)
  have read : (ofMembers members).foldlM step [] =
      .ok (templates.foldl (fun all t => Table.insert all t.1 t.2) []) := by
    rw [Source.ofMembers_eq]
    refine foldlM_of_forall₂ (List.forall₂_map_right_iff.mpr ?_) []
    refine List.forall₂_iff_zip.mpr ⟨h.length_eq, ?_⟩
    rintro ⟨name, t⟩ ⟨key, j⟩ pair
    obtain ⟨rfl, encoded⟩ := (List.forall₂_iff_zip.mp h).2 pair
    have template := readTemplate_encodes encoded (inside _ (List.of_mem_zip pair).2)
    intro all
    dsimp only [step]
    rw [template]
    rfl
  rw [ofJson, readTemplates]
  show (do let all ← (ofMembers members).foldlM step []; close none; return all) = _
  rw [read, Table.foldl_insert single]
  rfl

/-! ### The whole -/

/-- The slots of a draft, in the order of its fields. -/
def SchemaDraft.slots : List (Slot SchemaDraft) :=
  [⟨_, byteOrder, fun d order => { d with byteOrder := some order }, fun _ _ => rfl⟩,
    ⟨_, templates, fun d all => { d with templates := some all }, fun _ _ => rfl⟩,
    ⟨_, spec, fun d nodes => { d with spec := some nodes }, fun _ _ => rfl⟩]

theorem SchemaDraft.add_steps (levels : Nat) (m : String × Json) :
    Slot.Steps slots fun d => d.add levels m.1 (ofJson m.2) := by
  obtain ⟨key, j⟩ := m
  dsimp only
  by_cases byteOrder : key = "byte_order"
  · subst byteOrder
    exact .fills _ _ (.head _) fun _ => rfl
  by_cases secondName : key = "byteOrder"
  · subst secondName
    exact .fills _ _ (.head _) fun _ => rfl
  by_cases templates : key = "templates"
  · subst templates
    exact .fills _ _ (.tail _ (.head _)) fun _ => rfl
  by_cases spec : key = "spec"
  · subst spec
    exact .fills _ _ (.tail _ (.tail _ (.head _))) fun _ => rfl
  · exact .passes (ignore (ofJson j)) fun d => by rw [add] <;> assumption

theorem SchemaDraft.add_commutes (levels : Nat) :
    Commutes fun (d : SchemaDraft) (m : String × Json) => d.add levels m.1 (ofJson m.2) :=
  Slot.commutes (by simp [slots, Slot.Apart]) (add_steps levels)

theorem readOrder_encodes {order : ByteOrder} {j : Json} (h : order.Encodes j) :
    readOrder (ofJson j) = .ok order := by
  obtain ⟨named⟩ := h
  rw [ofJson, readOrder, readName, Source.name]
  · show orderOfName _ = _
    rw [orderOfName, named]
  all_goals exact nofun

theorem ofSource_encodes {schema : Schema} {j : Json} (h : schema.Encodes j) {levels : Nat}
    (shallow : depth j ≤ levels) : ofSource levels (ofJson j) = .ok schema := by
  obtain @⟨items, order, templates, members, hspec, horder, htemplates, perm⟩ := h
  have inside : ∀ m ∈ members, depth m.2 ≤ levels - 1 := by
    rw [← Json.depthMembers_le]
    rw [depth] at shallow
    omega
  let step (d : SchemaDraft) (m : String × Json) : Except Mismatch SchemaDraft :=
    d.add levels m.1 (ofJson m.2)
  have spec : step ⟨none, none, none⟩ ("spec", .list items) =
      .ok ⟨none, none, some schema.spec⟩ := by
    have inside := inside _ (perm.mem_iff.mpr List.mem_cons_self)
    dsimp only at inside
    show SchemaDraft.add _ _ _ _ = _
    rw [SchemaDraft.add, readBlock_encodes hspec (by omega)]
    rfl
  have orders : Takes step order ⟨none, none, some schema.spec⟩ fun d =>
      d.byteOrder.getD .little = schema.byteOrder ∧ d.templates = none ∧
        d.spec = some schema.spec := by
    refine horder.takes ?_ fun blank => ⟨blank.symm, rfl, rfl⟩
    intro key named j _ encoded
    have read := readOrder_encodes encoded
    refine ⟨⟨some schema.byteOrder, none, some schema.spec⟩, ?_, rfl, rfl, rfl⟩
    show SchemaDraft.add _ _ _ _ = _
    obtain rfl | named := List.mem_cons.mp named
    · rw [SchemaDraft.add, read]
      rfl
    · obtain rfl := List.mem_singleton.mp named
      rw [SchemaDraft.add, read]
      rfl
  have tables (d : SchemaDraft) (hd : d.byteOrder.getD .little = schema.byteOrder ∧
      d.templates = none ∧ d.spec = some schema.spec) :
      Takes step templates d fun d => d.byteOrder.getD .little = schema.byteOrder ∧
        d.templates.getD [] = schema.templates ∧ d.spec = some schema.spec := by
    obtain ⟨byteOrder, absent, spec⟩ := hd
    refine htemplates.takes ?_ fun blank =>
      ⟨byteOrder, by rw [absent, blank, Option.getD_none], spec⟩
    intro key named j member encoded
    obtain rfl := List.mem_singleton.mp named
    have held : (_, j) ∈ members := perm.mem_iff.mpr (.tail _ (List.mem_append_right _ member))
    have read := readTemplates_encodes encoded (inside _ held)
    refine ⟨{ d with templates := some schema.templates }, ?_, byteOrder, rfl, spec⟩
    show SchemaDraft.add _ _ _ _ = _
    rw [SchemaDraft.add, absent, read]
    rfl
  obtain ⟨d, read, byteOrder, templates, spec⟩ :=
    (Takes.cons spec (orders.append tables)).perm (SchemaDraft.add_commutes levels) perm
  rw [ofSource, readMembers_ofJson read]
  dsimp only [bind, Except.bind]
  rw [ofJson, need, byteOrder, templates, spec]
  · rfl
  · exact nofun

/-- So is a text of the tree, if the tree is not too deep. -/
theorem parse_encodes {schema : Schema} {j : Json} (h : schema.Encodes j) {cs : List Char}
    (spelt : Json.Spells j cs) (shallow : depth j ≤ maxLevels) :
    parse (String.ofList cs) = .ok schema := by
  rw [parse, Source.read_spells spelt]
  dsimp only
  rw [ofSource_encodes h shallow]
  rfl

end Schema

end ByteSchema
