import ByteSchema.Expr.Reader
import ByteSchema.Proofs.Json.Members
import Mathlib.Data.List.Permutation

/-!
# Terms and their trees

`Term.Encodes` says that a tree writes a term out: numbers and booleans as themselves, all others as
objects with one key. Such a tree is read as the term inside lists and outside, since only a bare
text means different things there: `ofJson_encodes`.
-/

namespace ByteSchema.Term

mutual

inductive Encodes : Term → Json → Prop
  | ref (path : String) : Encodes (.ref path) (.object [("ref", .text path)])
  | uint (n : UInt64) : Encodes (.uint n) (.number (.natural n))
  | text (s : String) : Encodes (.text s) (.object [("text", .text s)])
  | bool (b : Bool) : Encodes (.bool b) (.bool b)
  | op {o : Operator} {s : String} : Operator.ofSymbol? s = some o →
      Encodes (.op o) (.object [("op", .text s)])
  | expr {terms : List Term} {items : List Json} : EncodesAll terms items →
      Encodes (.expr terms) (.object [("expr", .list items)])
  | call {terms : List Term} {items : List Json} : terms ≠ [] → EncodesAll terms items →
      Encodes (.call terms) (.object [("call", .list items)])
  | select {condition : Term} {cases : List (Term × Term)} {key : String} {j : Json}
      {items : List Json} {members : List (String × Json)} : key = "on" ∨ key = "condition" →
      Encodes condition j → EncodesCases cases items →
      members.Perm [(key, j), ("cases", .list items)] →
      Encodes (.select condition cases) (.object [("match", .object members)])

inductive EncodesAll : List Term → List Json → Prop
  | nil : EncodesAll [] []
  | cons {term : Term} {j : Json} {terms : List Term} {items : List Json} : Encodes term j →
      EncodesAll terms items → EncodesAll (term :: terms) (j :: items)

inductive EncodesCases : List (Term × Term) → List Json → Prop
  | nil : EncodesCases [] []
  | cons {literal result : Term} {j j' : Json} {cases : List (Term × Term)} {items : List Json}
      {members : List (String × Json)} : Encodes literal j → Encodes result j' →
      members.Perm [("when", j), ("then", j')] → EncodesCases cases items →
      EncodesCases ((literal, result) :: cases) (.object members :: items)

end

/-! ### Reading -/

theorem EncodesAll.forall₂ {terms : List Term} {items : List Json} (h : EncodesAll terms items) :
    List.Forall₂ Encodes terms items := by
  induction items generalizing terms with
  | nil =>
    cases h
    exact .nil
  | cons item items ih =>
    cases h with
    | cons first rest => exact .cons first (ih rest)

theorem EncodesAll.ne_nil {terms : List Term} {items : List Json} (h : EncodesAll terms items)
    (callee : terms ≠ []) : items ≠ [] := by
  cases h with
  | nil => exact absurd rfl callee
  | cons _ _ => exact List.cons_ne_nil _ _

theorem lastTerm_eq (name : String) (members : List (String × Json)) :
    lastTerm name members = (Json.member? name members).map (ofJson false) := by
  induction members with
  | nil => rw [lastTerm, Json.member?, Option.map_none]
  | cons member rest ih =>
    obtain ⟨key, value⟩ := member
    rw [lastTerm, Json.member?_cons, ih, apply_ite (Option.map _), apply_ite (Option.map _)]
    rfl

theorem lastCases_eq (members : List (String × Json)) :
    lastCases members = (Json.member? "cases" members).bind ofCaseList := by
  induction members with
  | nil => rw [lastCases, Json.member?, Option.bind_none]
  | cons member rest ih =>
    obtain ⟨key, value⟩ := member
    rw [lastCases, Json.member?_cons, ih, apply_ite (Option.bind · _), apply_ite (Option.bind · _)]
    rfl

/-- An object with one member is read by its name. -/
theorem ofJson_single (inside : Bool) (key : String) (j : Json) :
    ofJson inside (.object [(key, j)]) = ofMember key j := by
  rw [ofJson, if_pos (by simp [keyCount]), ofMembers]

theorem ofMember_match {condition : Term} {cases : List (Term × Term)} {j : Json}
    {items : List Json} {body : List (String × Json)}
    (on : (Json.member? "on" body).or (Json.member? "condition" body) = some j)
    (listed : Json.member? "cases" body = some (.list items))
    (hcondition : ofJson false j = .ok condition) (hcases : ofCases items = .ok cases) :
    ofMember "match" (.object body) = .ok (.select condition cases) := by
  rw [ofMember, if_pos rfl, lastTerm_eq, lastTerm_eq, ← Option.map_or, on, lastCases_eq, listed,
    Option.map_some, Option.bind_some, ofCaseList, hcondition, hcases]
  rfl

theorem ofCase_object {literal result : Term} {j j' : Json} {body : List (String × Json)}
    (first : Json.member? "when" body = some j) (second : Json.member? "then" body = some j')
    (hliteral : ofJson false j = .ok literal) (hresult : ofJson false j' = .ok result) :
    ofCase (.object body) = .ok (literal, result) := by
  rw [ofCase, lastTerm_eq, lastTerm_eq, first, second, Option.map_some, Option.map_some, hliteral,
    hresult]
  rfl

theorem condition_of_perm {key : String} {j : Json} {items : List Json}
    {members : List (String × Json)} (named : key = "on" ∨ key = "condition")
    (perm : members.Perm [(key, j), ("cases", .list items)]) :
    (Json.member? "on" members).or (Json.member? "condition" members) = some j ∧
      Json.member? "cases" members = some (.list items) := by
  have keys : (members.map Prod.fst).Perm [key, "cases"] := perm.map Prod.fst
  have single : (members.map Prod.fst).Nodup := by
    rw [keys.nodup_iff]
    obtain rfl | rfl := named <;> decide
  have given := Json.member?_of_mem single (perm.mem_iff.mpr List.mem_cons_self)
  have listed := Json.member?_of_mem single (perm.mem_iff.mpr (.tail _ List.mem_cons_self))
  refine ⟨?_, listed⟩
  obtain rfl | rfl := named
  · rw [given, Option.some_or]
  · have other : "on" ∉ members.map Prod.fst := by
      rw [keys.mem_iff]
      decide
    rw [Json.member?_eq_none.mpr other, given, Option.none_or]

theorem arm_of_perm {j j' : Json} {members : List (String × Json)}
    (perm : members.Perm [("when", j), ("then", j')]) :
    Json.member? "when" members = some j ∧ Json.member? "then" members = some j' := by
  have single : (members.map Prod.fst).Nodup := by
    rw [(perm.map Prod.fst).nodup_iff]
    simp
  exact ⟨Json.member?_of_mem single (perm.mem_iff.mpr List.mem_cons_self),
    Json.member?_of_mem single (perm.mem_iff.mpr (.tail _ List.mem_cons_self))⟩

mutual

theorem ofJson_encodes : {term : Term} → {j : Json} → Encodes term j → (inside : Bool) →
    ofJson inside j = .ok term
  | _, _, .ref path, inside => by rw [ofJson_single, ofMember, ofTextForm]
  | _, _, .uint n, _ => by rw [ofJson]
  | _, _, .text s, inside => by rw [ofJson_single, ofMember, ofTextForm]
  | _, _, .bool b, _ => by rw [ofJson]
  | _, _, .op h, inside => by
    rw [ofJson_single, ofMember, ofTextForm, h]
  | _, _, .expr h, inside => by
    rw [ofJson_single, ofMember, if_pos rfl, ofItems_encodes h true]
    rfl
  | _, _, .call callee h, inside => by
    have named := h.ne_nil callee
    rw [ofJson_single, ofMember, if_neg (by decide), if_pos rfl,
      if_neg (mt List.isEmpty_iff.mp named), ofItems_encodes h false]
    rfl
  | _, _, .select key h h' perm, inside => by
    obtain ⟨on, listed⟩ := condition_of_perm key perm
    rw [ofJson_single]
    exact ofMember_match on listed (ofJson_encodes h false) (ofCases_encodes h')

theorem ofItems_encodes : {terms : List Term} → {items : List Json} → EncodesAll terms items →
    (inside : Bool) → ofItems inside items = .ok terms
  | _, _, .nil, _ => by rw [ofItems]
  | _, _, .cons h h', inside => by
    rw [ofItems, ofJson_encodes h inside, ofItems_encodes h' inside]
    rfl

theorem ofCases_encodes : {cases : List (Term × Term)} → {items : List Json} →
    EncodesCases cases items → ofCases items = .ok cases
  | _, _, .nil => by rw [ofCases]
  | _, _, .cons h h' perm rest => by
    obtain ⟨first, second⟩ := arm_of_perm perm
    have arm := ofCase_object first second (ofJson_encodes h false) (ofJson_encodes h' false)
    rw [ofCases, arm, ofCases_encodes rest]
    rfl

end

example : ofJson true (.text "eq") = .ok (.op .eq) ∧
    ofJson true (.object [("ref", .text "eq")]) = .ok (.ref "eq") :=
  ⟨rfl, rfl⟩

/-! ### The tree of a term -/

mutual

def toJson : Term → Json
  | ref path => .object [("ref", .text path)]
  | uint n => .number (.natural n)
  | text s => .object [("text", .text s)]
  | bool b => .bool b
  | op o => .object [("op", .text o.symbol)]
  | expr terms => .object [("expr", .list (toItems terms))]
  | call terms => .object [("call", .list (toItems terms))]
  | select condition cases =>
    .object [("match", .object [("on", toJson condition), ("cases", .list (toCases cases))])]

def toItems : List Term → List Json
  | [] => []
  | term :: terms => toJson term :: toItems terms

def toCases : List (Term × Term) → List Json
  | [] => []
  | (literal, result) :: cases =>
    .object [("when", toJson literal), ("then", toJson result)] :: toCases cases

end

mutual

/-- Every call in the term names its function. -/
def namesCalls : Term → Bool
  | ref _ | uint _ | text _ | bool _ | op _ => true
  | expr terms => namesCallsAll terms
  | call terms => !terms.isEmpty && namesCallsAll terms
  | select condition cases => namesCalls condition && namesCallsCases cases

def namesCallsAll : List Term → Bool
  | [] => true
  | term :: terms => namesCalls term && namesCallsAll terms

def namesCallsCases : List (Term × Term) → Bool
  | [] => true
  | (literal, result) :: cases => namesCalls literal && namesCalls result && namesCallsCases cases

end

mutual

theorem encodes_toJson : (term : Term) → term.namesCalls = true → Encodes term term.toJson
  | ref path, _ => .ref path
  | uint n, _ => .uint n
  | text s, _ => .text s
  | bool b, _ => .bool b
  | op o, _ => .op o.ofSymbol?_symbol
  | expr terms, h => .expr (encodes_toItems terms h)
  | call terms, h => by
    rw [namesCalls, Bool.and_eq_true, Bool.not_eq_true', List.isEmpty_eq_false_iff] at h
    exact .call h.1 (encodes_toItems terms h.2)
  | select condition cases, h => by
    obtain ⟨hcondition, hcases⟩ := Bool.and_eq_true _ _ ▸ h
    exact .select (.inl rfl) (encodes_toJson condition hcondition) (encodes_toCases cases hcases)
      (.refl _)

theorem encodes_toItems : (terms : List Term) → namesCallsAll terms = true →
    EncodesAll terms (toItems terms)
  | [], _ => .nil
  | term :: terms, h => by
    rw [namesCallsAll, Bool.and_eq_true] at h
    exact .cons (encodes_toJson term h.1) (encodes_toItems terms h.2)

theorem encodes_toCases : (cases : List (Term × Term)) → namesCallsCases cases = true →
    EncodesCases cases (toCases cases)
  | [], _ => .nil
  | (literal, result) :: cases, h => by
    rw [namesCallsCases, Bool.and_eq_true, Bool.and_eq_true] at h
    obtain ⟨⟨hliteral, hresult⟩, hcases⟩ := h
    exact .cons (encodes_toJson literal hliteral) (encodes_toJson result hresult) (.refl _)
      (encodes_toCases cases hcases)

end

end ByteSchema.Term
