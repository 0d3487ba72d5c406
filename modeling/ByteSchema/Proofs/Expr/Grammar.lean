import ByteSchema.Proofs.Decode.Ends
import ByteSchema.Proofs.Json.Reading
import ByteSchema.Proofs.Schema.Terms

/-!
# The grammar of terms

`Accepted` says which trees are terms. `Reads` opens the reader by one level: the term of a tree by
the terms of its parts. That no other tree is read is then shown by the size of the tree, that every
accepted one is by its grammar: `terms_accepted`.
-/

namespace ByteSchema.Term

open Json (Sole member?)

/-! ### Accepted trees -/

mutual

inductive Accepted : Json → Prop
  | bool (b : Bool) : Accepted (.bool b)
  | natural (n : UInt64) : Accepted (.number (.natural n))
  | text (s : String) : Accepted (.text s)
  | list {items : List Json} : (∀ item ∈ items, Accepted item) → Accepted (.list items)
  | object {members : List (String × Json)} {key : String} {j : Json} : Sole members key j →
      AcceptedForm key j → Accepted (.object members)

/-- What may stand under the only key of an object. -/
inductive AcceptedForm : String → Json → Prop
  | ref (path : String) : AcceptedForm "ref" (.text path)
  | text (s : String) : AcceptedForm "text" (.text s)
  | op {s : String} {o : Operator} : Operator.ofSymbol? s = some o → AcceptedForm "op" (.text s)
  | expr {items : List Json} : (∀ item ∈ items, Accepted item) → AcceptedForm "expr" (.list items)
  | call {items : List Json} : items ≠ [] → (∀ item ∈ items, Accepted item) →
      AcceptedForm "call" (.list items)
  | select {body : List (String × Json)} {on : Json} {arms : List Json} :
      (member? "on" body).or (member? "condition" body) = some on → Accepted on →
      member? "cases" body = some (.list arms) → (∀ arm ∈ arms, AcceptedCase arm) →
      AcceptedForm "match" (.object body)

inductive AcceptedCase : Json → Prop
  | arm {body : List (String × Json)} {literal result : Json} : member? "when" body = some literal →
      Accepted literal → member? "then" body = some result → Accepted result →
      AcceptedCase (.object body)

end

/-! ### One level of the reader -/

theorem keyCount_eq_zero {members : List (String × Json)} : keyCount members = 0 ↔ members = [] := by
  induction members with
  | nil => simp [keyCount]
  | cons member rest ih =>
    obtain ⟨key, j⟩ := member
    refine ⟨fun h => ?_, fun none => absurd none (List.cons_ne_nil _ _)⟩
    rw [keyCount, Nat.add_eq_zero_iff, ih] at h
    obtain ⟨rfl, h⟩ := h
    exact absurd h (by simp)

theorem keyCount_eq_one {members : List (String × Json)} :
    keyCount members = 1 ↔ ∃ key j, Sole members key j := by
  induction members with
  | nil => exact ⟨fun h => absurd h (by simp [keyCount]), fun ⟨_, _, sole⟩ => (sole.ne_nil rfl).elim⟩
  | cons member rest ih =>
    obtain ⟨key, value⟩ := member
    simp only [Json.sole_cons]
    rw [keyCount]
    by_cases held : (rest.lookup key).isSome
    · rw [if_pos held, Nat.add_zero, ih]
      constructor
      · rintro ⟨name, j, sole⟩
        have same : key = name := sole.named key (Table.lookup_isSome.mp held)
        exact ⟨name, j, same, .inr sole⟩
      · rintro ⟨name, j, -, ⟨rfl, -⟩ | sole⟩
        · cases held
        · exact ⟨name, j, sole⟩
    · rw [if_neg held, Nat.add_eq_right, keyCount_eq_zero]
      constructor
      · rintro rfl
        exact ⟨key, value, rfl, .inl ⟨rfl, rfl⟩⟩
      · rintro ⟨name, j, rfl, ⟨none, -⟩ | sole⟩
        · exact none
        · exact absurd sole.held held

theorem ofMembers_sole {members : List (String × Json)} {key : String} {j : Json}
    (sole : Sole members key j) : ofMembers members = ofMember key j := by
  induction members with
  | nil => exact absurd rfl sole.ne_nil
  | cons member rest ih =>
    obtain ⟨name, value⟩ := member
    obtain ⟨rfl, ⟨rfl, rfl⟩ | sole⟩ := Json.sole_cons.mp sole
    · rw [ofMembers]
    · cases rest with
      | nil => exact absurd rfl sole.ne_nil
      | cons next more => rw [ofMembers, ih sole]

theorem ofItems_eq (inside : Bool) (items : List Json) :
    ofItems inside items = items.mapM (ofJson inside) := by
  induction items with
  | nil => rw [ofItems, List.mapM_nil]; rfl
  | cons item items ih => rw [ofItems, List.mapM_cons, ih]

theorem ofCases_eq (items : List Json) : ofCases items = items.mapM ofCase := by
  induction items with
  | nil => rw [ofCases, List.mapM_nil]; rfl
  | cons item items ih => rw [ofCases, List.mapM_cons, ih]

/-- The term of what stands under the only key. -/
inductive ReadsForm : String → Json → Term → Prop
  | ref (path : String) : ReadsForm "ref" (.text path) (.ref path)
  | text (s : String) : ReadsForm "text" (.text s) (.text s)
  | op {s : String} {o : Operator} : Operator.ofSymbol? s = some o →
      ReadsForm "op" (.text s) (.op o)
  | expr {items : List Json} {terms : List Term} : ofItems true items = .ok terms →
      ReadsForm "expr" (.list items) (.expr terms)
  | call {items : List Json} {terms : List Term} : items ≠ [] → ofItems false items = .ok terms →
      ReadsForm "call" (.list items) (.call terms)
  | select {body : List (String × Json)} {on : Json} {arms : List Json} {condition : Term}
      {cases : List (Term × Term)} :
      (member? "on" body).or (member? "condition" body) = some on →
      ofJson false on = .ok condition → member? "cases" body = some (.list arms) →
      ofCases arms = .ok cases → ReadsForm "match" (.object body) (.select condition cases)

inductive Reads (inside : Bool) : Json → Term → Prop
  | bool (b : Bool) : Reads inside (.bool b) (.bool b)
  | natural (n : UInt64) : Reads inside (.number (.natural n)) (.uint n)
  | text (s : String) : Reads inside (.text s) (ofText inside s)
  | list {items : List Json} {terms : List Term} : ofItems true items = .ok terms →
      Reads inside (.list items) (.expr terms)
  | object {members : List (String × Json)} {key : String} {j : Json} {term : Term} :
      Sole members key j → ReadsForm key j term → Reads inside (.object members) term

inductive ReadsCase : Json → Term × Term → Prop
  | arm {body : List (String × Json)} {j j' : Json} {literal result : Term} :
      member? "when" body = some j → ofJson false j = .ok literal →
      member? "then" body = some j' → ofJson false j' = .ok result →
      ReadsCase (.object body) (literal, result)

theorem readsForm_of_text {key s : String} {term : Term} (h : ofTextForm key s = .ok term) :
    ReadsForm key (.text s) term := by
  unfold ofTextForm at h
  split at h
  · cases h
    exact .ref s
  · cases h
    exact .text s
  · split at h
    · next o spelt =>
      cases h
      exact .op spelt
    · cases h
  · cases h
  · cases h

theorem readsForm_of_list {key : String} {items : List Json} {term : Term}
    (h : ofMember key (.list items) = .ok term) : ReadsForm key (.list items) term := by
  rw [ofMember] at h
  split at h
  · next named =>
    obtain ⟨terms, read, ⟨⟩⟩ := bind_ok h
    exact named ▸ .expr read
  · split at h
    · next named =>
      split at h
      · cases h
      · next callee =>
        obtain ⟨terms, read, ⟨⟩⟩ := bind_ok h
        exact named ▸ .call (mt List.isEmpty_iff.mpr callee) read
    · cases h

theorem readsForm_of_object {key : String} {body : List (String × Json)} {term : Term}
    (h : ofMember key (.object body) = .ok term) : ReadsForm key (.object body) term := by
  rw [ofMember] at h
  split at h
  · next named =>
    subst named
    rw [lastTerm_eq, lastTerm_eq, ← Option.map_or, lastCases_eq] at h
    split at h
    · cases h
    · cases h
    · next on listed =>
      obtain ⟨j, hj, rfl⟩ := Option.map_eq_some_iff.mp on
      obtain ⟨list, hlist, listed⟩ := Option.bind_eq_some_iff.mp listed
      obtain ⟨cases, hcases, h⟩ := bind_ok h
      obtain ⟨condition, hcondition, ⟨⟩⟩ := bind_ok h
      cases list with
      | list arms =>
        rw [ofCaseList, Option.some.injEq] at listed
        exact .select hj hcondition hlist (listed.trans hcases)
      | _ => simp [ofCaseList] at listed
  · cases h

theorem ofMember_ok {key : String} {j : Json} {term : Term} :
    ofMember key j = .ok term ↔ ReadsForm key j term := by
  constructor
  · intro h
    cases j with
    | null | bool b | number n => simp [ofMember, noForm] at h
    | text s => exact readsForm_of_text (by rwa [ofMember] at h)
    | list items => exact readsForm_of_list h
    | object body => exact readsForm_of_object h
  · intro h
    cases h with
    | ref | text => rw [ofMember, ofTextForm]
    | op spelt => rw [ofMember, ofTextForm, spelt]
    | expr read =>
      rw [ofMember, if_pos rfl, read]
      rfl
    | call callee read =>
      rw [ofMember, if_neg (by decide), if_pos rfl, if_neg (mt List.isEmpty_iff.mp callee), read]
      rfl
    | select on condition listed cases => exact ofMember_match on listed condition cases

theorem ofJson_ok {inside : Bool} {j : Json} {term : Term} :
    ofJson inside j = .ok term ↔ Reads inside j term := by
  constructor
  · intro h
    cases j with
    | null =>
      rw [ofJson] at h
      cases h
    | bool b =>
      rw [ofJson] at h
      cases h
      exact .bool b
    | number n =>
      cases n with
      | natural n =>
        rw [ofJson] at h
        cases h
        exact .natural n
      | _ => simp [ofJson] at h
    | text s =>
      rw [ofJson] at h
      cases h
      exact .text s
    | list items =>
      rw [ofJson] at h
      obtain ⟨terms, read, ⟨⟩⟩ := bind_ok h
      exact .list read
    | object members =>
      rw [ofJson] at h
      split at h
      · next one =>
        obtain ⟨key, j, sole⟩ := keyCount_eq_one.mp one
        rw [ofMembers_sole sole] at h
        exact .object sole (ofMember_ok.mp h)
      · cases h
  · intro h
    cases h with
    | bool | natural | text => rw [ofJson]
    | list read =>
      rw [ofJson, read]
      rfl
    | object sole form =>
      rw [ofJson, if_pos (keyCount_eq_one.mpr ⟨_, _, sole⟩), ofMembers_sole sole]
      exact ofMember_ok.mpr form

theorem ofCase_ok {j : Json} {arm : Term × Term} : ofCase j = .ok arm ↔ ReadsCase j arm := by
  constructor
  · intro h
    cases j with
    | object body =>
      rw [ofCase, lastTerm_eq, lastTerm_eq] at h
      split at h
      · cases h
      · cases h
      · next first second =>
        obtain ⟨j, hj, rfl⟩ := Option.map_eq_some_iff.mp first
        obtain ⟨j', hj', rfl⟩ := Option.map_eq_some_iff.mp second
        obtain ⟨literal, hliteral, h⟩ := bind_ok h
        obtain ⟨result, hresult, ⟨⟩⟩ := bind_ok h
        exact .arm hj hliteral hj' hresult
    | _ => simp [ofCase] at h
  · rintro ⟨first, literal, second, result⟩
    exact ofCase_object first second literal result

/-! ### Every accepted tree is read -/

theorem ofItems_isOk {inside : Bool} {items : List Json} :
    (∃ terms, ofItems inside items = .ok terms) ↔
      ∀ item ∈ items, ∃ term, ofJson inside item = .ok term := by
  rw [ofItems_eq, exists_mapM_ok]

theorem ofCases_isOk {arms : List Json} :
    (∃ cases, ofCases arms = .ok cases) ↔ ∀ arm ∈ arms, ∃ found, ofCase arm = .ok found := by
  rw [ofCases_eq, exists_mapM_ok]

mutual

theorem Accepted.isRead : {j : Json} → Accepted j → (inside : Bool) →
    ∃ term, ofJson inside j = .ok term
  | _, .bool b, _ => ⟨_, ofJson_ok.mpr (.bool b)⟩
  | _, .natural n, _ => ⟨_, ofJson_ok.mpr (.natural n)⟩
  | _, .text s, _ => ⟨_, ofJson_ok.mpr (.text s)⟩
  | _, .list accepted, _ => by
    obtain ⟨terms, read⟩ := ofItems_isOk.mpr fun item mem => (accepted item mem).isRead true
    exact ⟨_, ofJson_ok.mpr (.list read)⟩
  | _, .object sole form, _ => by
    obtain ⟨term, read⟩ := form.isRead
    exact ⟨term, ofJson_ok.mpr (.object sole read)⟩

theorem AcceptedForm.isRead : {key : String} → {j : Json} → AcceptedForm key j →
    ∃ term, ReadsForm key j term
  | _, _, .ref path => ⟨_, .ref path⟩
  | _, _, .text s => ⟨_, .text s⟩
  | _, _, .op spelt => ⟨_, .op spelt⟩
  | _, _, .expr accepted => by
    obtain ⟨terms, read⟩ := ofItems_isOk.mpr fun item mem => (accepted item mem).isRead true
    exact ⟨_, .expr read⟩
  | _, _, .call callee accepted => by
    obtain ⟨terms, read⟩ := ofItems_isOk.mpr fun item mem => (accepted item mem).isRead false
    exact ⟨_, .call callee read⟩
  | _, _, .select on accepted listed arms => by
    obtain ⟨condition, read⟩ := accepted.isRead false
    obtain ⟨cases, each⟩ := ofCases_isOk.mpr fun arm mem => (arms arm mem).isRead
    exact ⟨_, .select on read listed each⟩

theorem AcceptedCase.isRead : {j : Json} → AcceptedCase j → ∃ found, ofCase j = .ok found
  | _, .arm first accepted second accepted' => by
    obtain ⟨literal, read⟩ := accepted.isRead false
    obtain ⟨result, read'⟩ := accepted'.isRead false
    exact ⟨_, ofCase_ok.mpr (.arm first read second read')⟩

end

/-! ### No other tree is read -/

/-- A term of the tree only comes of an accepted one, and names the functions it calls. -/
def Sound (j : Json) : Prop :=
  ∀ (inside : Bool) (term : Term), ofJson inside j = .ok term →
    Accepted j ∧ term.namesCalls = true

theorem ofItems_sound {inside : Bool} {items : List Json} {terms : List Term}
    (sound : ∀ item ∈ items, Sound item) (h : ofItems inside items = .ok terms) :
    (∀ item ∈ items, Accepted item) ∧ namesCallsAll terms = true := by
  rw [ofItems_eq, mapM_ok] at h
  induction h with
  | nil => simp [namesCallsAll]
  | cons first rest ih =>
    obtain ⟨here, sound⟩ := List.forall_mem_cons.mp sound
    obtain ⟨accepted, named⟩ := here _ _ first
    obtain ⟨others, all⟩ := ih sound
    exact ⟨List.forall_mem_cons.mpr ⟨accepted, others⟩, by rw [namesCallsAll, named, all]; rfl⟩

theorem ReadsCase.sound {j : Json} {arm : Term × Term}
    (sound : ∀ k : Json, sizeOf k < sizeOf j → Sound k) (h : ReadsCase j arm) :
    AcceptedCase j ∧ arm.1.namesCalls = true ∧ arm.2.namesCalls = true := by
  obtain ⟨first, literal, second, result⟩ := h
  obtain ⟨accepted, named⟩ := sound _ (Json.sizeOf_member first) _ _ literal
  obtain ⟨accepted', named'⟩ := sound _ (Json.sizeOf_member second) _ _ result
  exact ⟨.arm first accepted second accepted', named, named'⟩

theorem ofCases_sound {arms : List Json} {cases : List (Term × Term)}
    (sound : ∀ k : Json, sizeOf k < sizeOf (Json.list arms) → Sound k)
    (h : ofCases arms = .ok cases) :
    (∀ arm ∈ arms, AcceptedCase arm) ∧ namesCallsCases cases = true := by
  have below : ∀ arm ∈ arms, ∀ k : Json, sizeOf k < sizeOf arm → Sound k :=
    fun arm mem k small => sound k (Nat.lt_trans small (Json.sizeOf_item mem))
  clear sound
  rw [ofCases_eq, mapM_ok] at h
  induction h with
  | nil => simp [namesCallsCases]
  | cons first rest ih =>
    obtain ⟨here, below⟩ := List.forall_mem_cons.mp below
    obtain ⟨accepted, literal, result⟩ := (ofCase_ok.mp first).sound here
    obtain ⟨others, all⟩ := ih below
    refine ⟨List.forall_mem_cons.mpr ⟨accepted, others⟩, ?_⟩
    rw [namesCallsCases, literal, result, all]
    rfl

theorem ReadsForm.sound {key : String} {j : Json} {term : Term}
    (sound : ∀ k : Json, sizeOf k < sizeOf j → Sound k) (h : ReadsForm key j term) :
    AcceptedForm key j ∧ term.namesCalls = true := by
  cases h with
  | ref path => exact ⟨.ref path, rfl⟩
  | text s => exact ⟨.text s, rfl⟩
  | op spelt => exact ⟨.op spelt, rfl⟩
  | expr read =>
    obtain ⟨accepted, named⟩ := ofItems_sound (fun item mem => sound item (Json.sizeOf_item mem)) read
    exact ⟨.expr accepted, named⟩
  | call callee read =>
    obtain ⟨accepted, named⟩ := ofItems_sound (fun item mem => sound item (Json.sizeOf_item mem)) read
    refine ⟨.call callee accepted, ?_⟩
    cases mapM_ok.mp ((ofItems_eq _ _).symm.trans read) with
    | nil => exact absurd rfl callee
    | cons _ _ => exact named
  | @select body j items _ _ on condition listed arms =>
    have small : sizeOf j < sizeOf (Json.object body) := by
      obtain on | ⟨-, on⟩ := Option.or_eq_some_iff.mp on
      · exact Json.sizeOf_member on
      · exact Json.sizeOf_member on
    obtain ⟨accepted, named⟩ := sound j small _ _ condition
    have below := Json.sizeOf_member listed
    obtain ⟨each, all⟩ := ofCases_sound (fun k small => sound k (Nat.lt_trans small below)) arms
    refine ⟨.select on accepted listed each, ?_⟩
    rw [namesCalls, named, all]
    rfl

theorem namesCalls_ofText (inside : Bool) (s : String) : (ofText inside s).namesCalls = true := by
  unfold ofText
  split <;> rfl

theorem sound (j : Json) : Sound j := by
  -- A value that `member?` finds is smaller than the object, but no part of it that a recursion on
  -- trees would come to.
  refine (measure (sizeOf : Json → Nat)).wf.induction (C := Sound) j fun j below inside term h => ?_
  cases ofJson_ok.mp h with
  | bool b => exact ⟨.bool b, rfl⟩
  | natural n => exact ⟨.natural n, rfl⟩
  | text s => exact ⟨.text s, namesCalls_ofText inside s⟩
  | list read =>
    obtain ⟨accepted, named⟩ :=
      ofItems_sound (fun item mem => below item (Json.sizeOf_item mem)) read
    exact ⟨.list accepted, named⟩
  | object sole form =>
    have value := Json.sizeOf_member sole.last
    obtain ⟨accepted, named⟩ := form.sound fun k small => below k (Nat.lt_trans small value)
    exact ⟨.object sole accepted, named⟩

/-! ### Inside lists and outside -/

theorem ofText_op {s : String} {o : Operator} (spelt : Operator.ofSymbol? s = some o) :
    ofText true s = .op o := by
  simp [ofText, spelt]

theorem ofText_outside (s : String) : ofText false s = .ref s := by
  simp [ofText]

theorem ofJson_true {j : Json} (plain : ∀ s o, Operator.ofSymbol? s = some o → j ≠ .text s) :
    ofJson true j = ofJson false j := by
  cases j with
  | text s =>
    have unspelt : Operator.ofSymbol? s = none :=
      Option.eq_none_iff_forall_ne_some.mpr fun o spelt => plain s o spelt rfl
    rw [ofJson, ofJson, ofText_outside]
    simp [ofText, unspelt]
  | number n => cases n <;> simp only [ofJson]
  | _ => simp only [ofJson]

/-! ### The entry point -/

theorem read_eq_ok {inside : Bool} {j : Json} {term : Term} :
    read inside j = .ok term ↔ ofJson inside j = .ok term := by
  unfold read
  cases ofJson inside j <;> simp

theorem read_eq_error {inside : Bool} {j : Json} {error : Error}
    (h : read inside j = .error error) : ∃ fault, error = .invalidSchema (.term fault) := by
  unfold read at h
  split at h
  · cases h
  · next fault _ =>
    cases h
    exact ⟨fault, rfl⟩

theorem read_isOk {inside : Bool} {j : Json} :
    (∃ term, read inside j = .ok term) ↔ Accepted j := by
  simp only [read_eq_ok]
  exact ⟨fun ⟨term, h⟩ => (sound j inside term h).1, fun accepted => accepted.isRead inside⟩

end ByteSchema.Term

namespace ByteSchema

open Term

/-- The reader accepts exactly the trees of the grammar, inside lists and outside. Whatever it
refuses makes the schema invalid, and in whatever it accepts every call names its function. Where
the tree stands only matters to a bare text that spells an operator. The integers of the grammar are
written as digits alone. -/
theorem terms_accepted :
    (∀ (j : Json) (inside : Bool),
      ((∃ term, Term.read inside j = .ok term) ↔ Accepted j) ∧
      (∀ error, Term.read inside j = .error error →
        ∃ fault, error = .invalidSchema (.term fault)) ∧
      (∀ term, Term.read inside j = .ok term → term.namesCalls = true)) ∧
    (∀ s o, Operator.ofSymbol? s = some o → Term.read true (.text s) = .ok (.op o) ∧
      Term.read false (.text s) = .ok (.ref s)) ∧
    (∀ j : Json, (∀ s o, Operator.ofSymbol? s = some o → j ≠ .text s) →
      Term.read true j = Term.read false j) ∧
    (∀ (negative : Bool) (cs rest : List Char) (n : UInt64), Json.Closed rest →
      (Json.Numeral.readNumber negative (cs ++ rest) = .value (.number (.natural n)) rest ↔
        negative = false ∧ Json.Decimal n.toNat cs)) := by
  refine ⟨fun j inside => ⟨read_isOk, fun error => read_eq_error, fun term h => ?_⟩,
    fun s o spelt => ⟨?_, ?_⟩, fun j plain => ?_, fun negative cs rest n closed => ?_⟩
  · exact (sound j inside term (read_eq_ok.mp h)).2
  · rw [read_eq_ok, ofJson, ofText_op spelt]
  · rw [read_eq_ok, ofJson, ofText_outside]
  · rw [Term.read, Term.read, ofJson_true plain]
  · exact Json.Numeral.readNumber_natural closed

/-- A choice by kind whose only arm subtracts what a call gives from a size. -/
def sizeChoice (children : List Json) : Json :=
  .object [("match", .object [
    ("cases", .list [.object [
      ("then", .list [.text "size", .text "-", .object [("call", .list children)]]),
      ("when", .number (.natural 1))]]),
    ("condition", .text "kind")])]

/-- The spelling of an operator among the children of a call is a reference. -/
theorem terms_accepted_nested :
    Accepted (sizeChoice [.text "list::sum", .text "eq"]) ∧
    ¬ Accepted (sizeChoice []) ∧
    (∃ term, Term.read true (sizeChoice [.text "list::sum", .text "eq"]) = .ok term ∧
      Term.read false (sizeChoice [.text "list::sum", .text "eq"]) = .ok term ∧
      term.namesCalls = true) ∧
    (∃ error fault, Term.read false (sizeChoice []) = .error error ∧
      error = .invalidSchema (.term fault)) ∧
    Term.read true (.text "eq") = .ok (.op .eq) ∧ Term.read false (.text "eq") = .ok (.ref "eq") ∧
    Json.Decimal 18446744073709551615 "18446744073709551615".toList := by
  obtain ⟨grammar, spelt, elsewhere, digits⟩ := terms_accepted
  have read : Term.read false (sizeChoice [.text "list::sum", .text "eq"]) =
      .ok (.select (.ref "kind") [(.uint 1,
        .expr [.ref "size", .op .sub, .call [.ref "list::sum", .ref "eq"]])]) := rfl
  have refused : Term.read false (sizeChoice []) = .error (.invalidSchema (.term .unnamedCall)) :=
    rfl
  have same := elsewhere (sizeChoice [.text "list::sum", .text "eq"]) (fun s o _ => nofun)
  have closed : Json.Closed [','] := fun c h => .inr (.inl (Option.some.inj h).symm)
  have widest : Json.Numeral.readNumber false ("18446744073709551615".toList ++ [',']) =
      .value (.number (.natural 18446744073709551615)) [','] := rfl
  obtain ⟨fault, invalid⟩ := (grammar _ false).2.1 _ refused
  refine ⟨(grammar _ false).1.mp ⟨_, read⟩, fun accepted => ?_,
    ⟨_, same.trans read, read, (grammar _ false).2.2 _ read⟩, ⟨_, fault, refused, invalid⟩,
    (spelt "eq" .eq rfl).1, (spelt "eq" .eq rfl).2, ((digits _ _ _ _ closed).mp widest).2⟩
  obtain ⟨term, read⟩ := (grammar (sizeChoice []) false).1.mpr accepted
  cases refused.symm.trans read

end ByteSchema
