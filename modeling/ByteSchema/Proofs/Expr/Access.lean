import ByteSchema.Proofs.Expr.Associativity
import ByteSchema.Proofs.Value.Paths

/-!
# Paths written out as operators

A reference with dots looks up one name after the other, as the operator `access` does with a text
behind it. The operator makes an undefined value of what is not there, and nothing is found in that:
`references_written_out`.
-/

namespace ByteSchema

namespace Term

/-- Looks up one name after the other in the value so far. -/
def accesses (names : List String) : List Term :=
  names.flatMap fun name => [.op .access, .text name]

end Term

/-- A lookup that fails may go on in an undefined value. -/
theorem Value.getD_follow_cons (v : Value) (name : String) (rest : List String) :
    (v.follow (name :: rest)).getD .undefined =
      (((v.child name).getD .undefined).follow rest).getD .undefined := by
  rw [follow]
  cases v.child name with
  | some w => rfl
  | none => cases rest <;> rfl

theorem Operator.apply_access (v : Value) (name : String) :
    access.apply v (.text name) = .ok ((v.child name).getD .undefined) := rfl

theorem reduce_accesses (env : Env) (acc : Value) (names : List String) :
    reduce env acc (Term.accesses names) = pure ((acc.follow names).getD .undefined) := by
  induction names generalizing acc with
  | nil => exact reduce_nil env acc
  | cons name rest ih =>
    have text : evaluate env (.text name) = pure (.text name) := rfl
    show reduce env acc (.op .access :: .text name :: Term.accesses rest) = _
    rw [reduce_apply env acc .access rfl, text, pure_bind, Operator.apply_access]
    show pure _ >>= _ = _
    rw [pure_bind, ih, Value.getD_follow_cons]

/-- What is cut off at the front of a path is the whole first name. -/
theorem Record.resolve_intercalate {first : String} {rest : List String} (named : first ≠ "$")
    (dotless : ∀ name ∈ first :: rest, '.' ∉ name.toList) (r : Record) :
    r.resolve (".".intercalate (first :: rest)) =
      ((Value.record r).follow (first :: rest)).getD .undefined := by
  have names := Path.segments_intercalate first dotless
  rw [resolve]
  split
  · next inner opens =>
    have whole : ".".intercalate (first :: rest) = "$" ++ "." ++ String.ofList inner := by
      rw [← String.toList_inj, opens]
      simp
    rw [whole, Path.segments_append] at names
    exact absurd (List.cons.inj names).1.symm named
  · rw [getPath_eq, Value.getPath, names]

/-- A reference to names with dots between them is the first name, with an operator for each name
behind it. Both have a value, undefined where a name is not found, and report nothing. -/
theorem references_written_out {first : String} {rest : List String} (named : first ≠ "$")
    (dotless : ∀ name ∈ first :: rest, '.' ∉ name.toList) (r : Record) (env : Env) :
    evaluate { env with resolve := r.resolve } (.ref (".".intercalate (first :: rest))) =
      evaluate { env with resolve := r.resolve } (.expr (.ref first :: Term.accesses rest)) ∧
    evaluate { env with resolve := r.resolve } (.ref (".".intercalate (first :: rest))) =
      pure (((Value.record r).follow (first :: rest)).getD .undefined) := by
  have whole := Record.resolve_intercalate named dotless r
  have head : r.resolve first = ((Value.record r).child first).getD .undefined := by
    have alone : ∀ name ∈ [first], '.' ∉ name.toList :=
      List.forall_mem_singleton.mpr (dotless first List.mem_cons_self)
    have found := Record.resolve_intercalate named alone r
    rw [String.intercalate_singleton, Value.getD_follow_cons] at found
    exact found
  have reference : evaluate { env with resolve := r.resolve }
      (.ref (".".intercalate (first :: rest))) =
      pure (((Value.record r).follow (first :: rest)).getD .undefined) := by
    rw [evaluate]
    exact congrArg pure whole
  refine ⟨?_, reference⟩
  rw [reference, evaluate, evaluateExpr.eq_def]
  show _ = pure (r.resolve first) >>= fun acc => reduce _ acc (Term.accesses rest)
  rw [pure_bind, reduce_accesses, head, Value.getD_follow_cons]

open ValueSample TermSample in
/-- A field of the name `length`, and an item that is missing. -/
theorem references_written_out_shelf :
    evaluate { unbound with resolve := shelf.resolve } (.ref "rows.0.length.1") [] =
      .ok (.text "y") [] ∧
    evaluate { unbound with resolve := shelf.resolve } (.expr [.ref "rows", .op .access, .text "0",
      .op .access, .text "length", .op .access, .text "1"]) [] = .ok (.text "y") [] ∧
    evaluate { unbound with resolve := shelf.resolve } (.expr [.ref "rows", .op .access, .text "2",
      .op .access, .text "length"]) [] = .ok .undefined [] := by
  obtain ⟨same, value⟩ := @references_written_out "rows" ["0", "length", "1"] (by decide)
    (by decide) shelf unbound
  obtain ⟨lost, undefined⟩ := @references_written_out "rows" ["2", "length"] (by decide)
    (by decide) shelf unbound
  exact ⟨congrFun value [], congrFun (same.symm.trans value) [],
    congrFun (lost.symm.trans undefined) []⟩

end ByteSchema
