import ByteSchema.Proofs.Schema.Contents

/-!
# Nodes are read from their trees

The members of a node make a draft that gives every field of the node what it holds, or leaves it
out where that stands for it. So the draft becomes the node: `toNode_of_gives`.
-/

namespace ByteSchema

/-! ### Drafts -/

namespace NodeKind

theorem ofTag?_tag (kind : NodeKind) : ofTag? kind.tag = some kind := by
  cases kind <;> decide

/-- No two fields of a kind share a name. -/
theorem eq_of_isNamed (kind : NodeKind) {f g : Field} (hf : f ∈ kind.fields) (hg : g ∈ kind.fields)
    {key : String} (named : f.isNamed key = true) (named' : g.isNamed key = true) : f = g := by
  have names : ∀ f ∈ kind.fields, ∀ g ∈ kind.fields, ∀ key ∈ f.name :: f.alias?.toList,
      g.isNamed key = true → f = g := by
    cases kind <;> decide +kernel
  refine names f hf g hg key ?_ named'
  rw [Field.isNamed, Bool.or_eq_true, decide_eq_true_eq, decide_eq_true_eq] at named
  obtain rfl | other := named
  · exact List.mem_cons_self
  · rw [other]
    exact .tail _ List.mem_cons_self

theorem field?_of_isNamed {kind : NodeKind} {f : Field} (hf : f ∈ kind.fields) {key : String}
    (named : f.isNamed key = true) : kind.field? key = some f := by
  have found : (kind.field? key).isSome := List.find?_isSome.mpr ⟨f, hf, named⟩
  obtain ⟨g, hg⟩ := Option.isSome_iff_exists.mp found
  have held := List.mem_of_find?_eq_some hg
  have named' : g.isNamed key = true := @List.find?_some _ (fun f : Field => f.isNamed key) _ _ hg
  rw [hg, kind.eq_of_isNamed hf held named named']

end NodeKind

/-- The tag of a node is none of its fields. -/
theorem Field.isNamed_type (f : Field) : f.isNamed "type" = false := by
  cases f <;> decide

/-- The tag is read wherever it stands. -/
theorem NodeKind.ofMembers_tagged {kind : NodeKind} {before after : List (String × Json)}
    (h : ∀ m ∈ before ++ after, m.1 ≠ "type") :
    ofMembers none (before ++ ("type", .text kind.tag) :: after) = .ok kind := by
  have rest (members : List (String × Json)) (h : ∀ m ∈ members, m.1 ≠ "type") :
      ofMembers (some kind) members = .ok kind := by
    induction members with
    | nil => rw [ofMembers]
    | cons m members ih =>
      obtain ⟨ne, h⟩ := List.forall_mem_cons.mp h
      rw [ofMembers, if_neg ne, ih h]
  induction before with
  | nil =>
    rw [List.nil_append, ofMembers, if_pos rfl, ofJson, ofTag?_tag]
    exact rest after h
  | cons m before ih =>
    obtain ⟨ne, h⟩ := List.forall_mem_cons.mp h
    rw [List.cons_append, ofMembers, if_neg ne, ih h]

namespace Draft

theorem get?_of_notMem {draft : Draft} {f : Field} (h : f ∉ draft.map Sigma.fst) :
    draft.get? f = none := by
  induction draft with
  | nil => rw [get?]
  | cons entry rest ih =>
    obtain ⟨g, content⟩ := entry
    obtain ⟨ne, h⟩ := not_or.mp (mt List.mem_cons.mpr h)
    rw [get?, dif_neg (Ne.symm ne), ih h]

theorem get?_of_mem {draft : Draft} {f : Field} {content : f.Content}
    (single : (draft.map Sigma.fst).Nodup) (h : ⟨f, content⟩ ∈ draft) :
    draft.get? f = some content := by
  induction draft with
  | nil => cases h
  | cons entry rest ih =>
    obtain ⟨g, other⟩ := entry
    obtain ⟨fresh, single⟩ := List.nodup_cons.mp single
    cases h with
    | head => rw [get?, dif_pos rfl]
    | tail _ h =>
      have ne : g ≠ f := by
        rintro rfl
        exact fresh (List.mem_map.mpr ⟨_, h, rfl⟩)
      rw [get?, dif_neg ne, ih single h]

/-- The draft gives a field this content, or leaves it out where the content stands for it. -/
def Gives (draft : Draft) (entry : (f : Field) × f.Content) : Prop :=
  (draft.get? entry.1).or entry.1.absent? = some entry.2

theorem toNode_of_gives {draft : Draft} {node : Node}
    (h : ∀ entry ∈ node.fields, draft.Gives entry) : draft.toNode node.kind = .ok node := by
  have needed : ∀ entry ∈ node.fields, draft.need entry.1 = .ok entry.2 := by
    intro entry hentry
    rw [need, h entry hentry]
  cases node with
  | action a =>
    cases a <;> simp_all [Node.fields, Action.fields, Node.kind, Action.kind, toNode, bind,
      Except.bind, pure, Except.pure]
  | _ => simp_all [Node.fields, Node.kind, toNode, bind, Except.bind, pure, Except.pure]

theorem ofMembers_tagged {kind : NodeKind} {draft : Draft} (before after : List (String × Json))
    (tag : Json) : ofMembers kind draft (before ++ ("type", tag) :: after) =
      ofMembers kind draft (before ++ after) := by
  induction before generalizing draft with
  | nil =>
    have none : kind.field? "type" = .none :=
      List.find?_eq_none.mpr fun f _ => by rw [f.isNamed_type]; decide
    rw [List.nil_append, ofMembers, none, List.nil_append]
  | cons m before ih =>
    rw [List.cons_append, List.cons_append, ofMembers, ofMembers]
    cases kind.field? m.1 with
    | none => exact ih
    | some f => simp only [ih]

/-- Members of a node are read to a draft of its fields, in whatever order they stand. -/
theorem ofMembers_read {kind : NodeKind} {read draft : Draft} {members : List (String × Json)}
    (h : List.Forall₂ (fun entry m => entry.1.isNamed m.1 = true ∧
      Field.readContent entry.1 m.2 = .ok entry.2) read members)
    (held : ∀ entry ∈ read, entry.1 ∈ kind.fields)
    (single : ((read ++ draft).map Sigma.fst).Nodup) :
    ofMembers kind draft members = .ok (read.reverse ++ draft) := by
  induction h generalizing draft with
  | nil => rw [ofMembers, List.reverse_nil, List.nil_append]
  | @cons entry member read members first _ ih =>
    obtain ⟨f, content⟩ := entry
    obtain ⟨key, j⟩ := member
    obtain ⟨named, value⟩ := first
    obtain ⟨hf, held⟩ := List.forall_mem_cons.mp held
    rw [List.cons_append, List.map_cons] at single
    obtain ⟨fresh, later⟩ := List.nodup_cons.mp single
    rw [List.map_append, List.mem_append, not_or] at fresh
    have single' : ((read ++ ⟨f, content⟩ :: draft).map Sigma.fst).Nodup := by
      rw [(List.perm_middle.map Sigma.fst).nodup_iff]
      exact single
    rw [ofMembers]
    simp only [NodeKind.field?_of_isNamed hf named, get?_of_notMem fresh.2, value]
    show ofMembers kind (⟨f, content⟩ :: draft) members = _
    rw [ih held single', List.reverse_cons, List.append_assoc]
    rfl

end Draft

namespace Node

/-- What is read of a node's fields from their members. -/
structure Read (fields : Draft) (parts : List (String × Json)) (read : Draft) : Prop where
  sublist : read.Sublist fields
  members : List.Forall₂ (fun entry m => entry.1.isNamed m.1 = true ∧
    Field.readContent entry.1 m.2 = .ok entry.2) read parts
  absent : ∀ entry ∈ fields, entry ∈ read ∨ entry.1.absent? = some entry.2

theorem Read.untagged {fields read : Draft} {parts : List (String × Json)}
    (h : Read fields parts read) : ∀ m ∈ parts, m.1 ≠ "type" := by
  have members := h.members
  clear h
  induction members with
  | nil => exact List.forall_mem_nil _
  | @cons entry m _ _ first _ ih =>
    refine List.forall_mem_cons.mpr ⟨?_, ih⟩
    intro tag
    have named := first.1
    rw [tag, entry.1.isNamed_type] at named
    cases named

theorem keys_fields (node : Node) : node.fields.map Sigma.fst = node.kind.fields := by
  cases node with
  | action a => cases a <;> rfl
  | _ => rfl

theorem nodup_fields (node : Node) : (node.fields.map Sigma.fst).Nodup := by
  rw [keys_fields]
  cases node.kind <;> decide

theorem toNode_of_read {node : Node} {parts members : List (String × Json)} {read : Draft}
    (h : Read node.fields parts read) (perm : members.Perm parts) :
    (do (← Draft.ofMembers node.kind [] members).toNode node.kind) = .ok node := by
  obtain ⟨read', found, perm'⟩ := List.perm_comp_forall₂ perm h.members.flip
  have held {entry : (f : Field) × f.Content} : entry ∈ read' → entry ∈ node.fields :=
    fun hentry => h.sublist.subset (perm'.subset hentry)
  have single : (read'.map Sigma.fst).Nodup :=
    (perm'.map Sigma.fst).nodup_iff.mpr (node.nodup_fields.sublist (h.sublist.map Sigma.fst))
  -- The members stand in an order of their own, and so does the draft.
  have drafted : Draft.ofMembers node.kind [] members = .ok (read'.reverse ++ []) := by
    refine Draft.ofMembers_read found.flip (fun entry hentry => ?_) (by rwa [List.append_nil])
    rw [← node.keys_fields]
    exact List.mem_map_of_mem (held hentry)
  rw [drafted, List.append_nil]
  refine Draft.toNode_of_gives fun entry hentry => ?_
  by_cases present : entry ∈ read'
  · have single' : (read'.reverse.map Sigma.fst).Nodup := by
      rwa [List.map_reverse, List.nodup_reverse]
    rw [Draft.Gives, Draft.get?_of_mem single' (List.mem_reverse.mpr present), Option.some_or]
  · -- The fields of a node are there once, so no other content stands in for a missing one.
    have missing : entry.1 ∉ read'.reverse.map Sigma.fst := by
      rw [List.map_reverse, List.mem_reverse]
      intro other
      obtain ⟨entry', hentry', same⟩ := List.mem_map.mp other
      have eq := List.inj_on_of_nodup_map node.nodup_fields (held hentry') hentry same
      exact present (eq ▸ hentry')
    rw [Draft.Gives, Draft.get?_of_notMem missing, Option.none_or]
    exact (h.absent entry hentry).resolve_left (mt perm'.mem_iff.mpr present)

/-- Without its tag a node has the members for its fields. -/
theorem Read.split {fields read : Draft} {parts members : List (String × Json)} {tag : Json}
    (h : Read fields parts read) (perm : members.Perm (("type", tag) :: parts)) :
    ∃ before after, members = before ++ ("type", tag) :: after ∧ (before ++ after).Perm parts ∧
      ∀ m ∈ before ++ after, m.1 ≠ "type" := by
  obtain ⟨before, after, rfl⟩ := List.append_of_mem (perm.mem_iff.mpr List.mem_cons_self)
  have perm := (List.perm_middle.symm.trans perm).cons_inv
  exact ⟨before, after, rfl, perm, fun m hm => h.untagged m (perm.mem_iff.mp hm)⟩

mutual

theorem ofJson_encodes : {node : Node} → {j : Json} → Encodes node j → Node.ofJson j = .ok node
  | _, _, .object h perm => by
    obtain ⟨read, h⟩ := fields_read h
    obtain ⟨before, after, rfl, perm, untagged⟩ := h.split perm
    rw [Node.ofJson, NodeKind.ofMembers_tagged untagged]
    dsimp only [bind, Except.bind]
    rw [Draft.ofMembers_tagged]
    exact toNode_of_read h perm

theorem fields_read : {fields : Draft} → {parts : List (String × Json)} →
    EncodesFields fields parts → ∃ read, Read fields parts read
  | _, _, .nil => ⟨[], .slnil, .nil, List.forall_mem_nil _⟩
  | _, _, .written named h rest => by
    have value := readContent_encodes h
    obtain ⟨read, sublist, members, absent⟩ := fields_read rest
    refine ⟨_ :: read, sublist.cons_cons _, .cons ⟨named, value⟩ members, ?_⟩
    refine List.forall_mem_cons.mpr ⟨.inl List.mem_cons_self, fun entry hentry => ?_⟩
    exact (absent entry hentry).imp_left (.tail _)
  | _, _, .omitted blank rest => by
    obtain ⟨read, sublist, members, absent⟩ := fields_read rest
    exact ⟨read, sublist.cons _, members, List.forall_mem_cons.mpr ⟨.inr blank, absent⟩⟩

theorem readContent_encodes : {f : Field} → {content : f.Content} → {j : Json} →
    EncodesField f content j → Field.readContent f j = .ok content
  | _, _, _, .plain h => Field.readContent_holds h
  | _, _, _, .items h => by rw [Field.readContent, readAll_encodes h]
  | _, _, _, .spec h => by rw [Field.readContent, readAll_encodes h]
  | _, _, _, .otherwise h => by rw [Field.readContent, readAll_encodes h]
  | _, _, _, .cases single h => by rw [Field.readContent, readCases_encodes single h]
  | _, _, _, .noDefault => by rw [Field.readContent]
  | _, _, _, .default h => by
    rw [Field.readContent, readAll_encodes h]
    rfl

theorem readAll_encodes : {nodes : List Node} → {items : List Json} → EncodesAll nodes items →
    Node.readAll items = .ok nodes
  | _, _, .nil => by rw [readAll]
  | _, _, .cons h rest => by
    rw [readAll, ofJson_encodes h, readAll_encodes rest]
    rfl

theorem readCases_encodes : {cases : List (String × List Node)} → {members : List (String × Json)} →
    (cases.map Prod.fst).Nodup → EncodesCases cases members → Node.readCases members = .ok cases
  | _, _, _, .nil => by rw [readCases]
  | _, _, single, .cons h rest => by
    obtain ⟨fresh, single⟩ := List.nodup_cons.mp single
    rw [readCases, readBlock, readAll_encodes h, readCases_encodes single rest]
    exact congrArg Except.ok (if_neg (mt Table.lookup_isSome.mp fresh))

end

end Node

end ByteSchema
