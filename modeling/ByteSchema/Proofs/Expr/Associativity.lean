import ByteSchema.Expr.Eval

/-!
# Expressions associate to the left

What stands before an operator of an expression can be put in an expression of its own, for the
operator and what follows it see nothing of it but its value: `evaluateExpr_append`. Nothing is
asked of it but one term at least, since an operator cannot lead. If it is malformed, then both
fail at the same term, with the same error and after the same reports.
-/

namespace ByteSchema

theorem Term.operator?_eq_some {term : Term} {op : Operator} :
    term.operator? = some op ↔ term = .op op := by
  cases term <;> simp [operator?]

@[simp] theorem Eval.throw_bind {α β : Type} (e : Error) (f : α → Eval β) :
    (throw e >>= f : Eval β) = throw e := rfl

section

variable (env : Env) (acc : Value) (op : Operator)

/-! ### One step of the reduction -/

theorem reduce_nil : reduce env acc [] = pure acc := by
  unfold reduce
  rfl

theorem reduce_operand {head : Term} (operand : head.operator? = none) (tail : List Term) :
    reduce env acc (head :: tail) = throw (.eval .missingOperator) := by
  unfold reduce
  rw [operand]

theorem reduce_dangling : reduce env acc [.op op] = throw (.eval (.missingOperand op)) := by
  unfold reduce
  rfl

theorem reduce_doubled (next : Operator) (rest : List Term) :
    reduce env acc (.op op :: .op next :: rest) = throw (.eval (.missingOperand op)) := by
  unfold reduce
  rfl

theorem reduce_apply {term : Term} (operand : term.operator? = none) (rest : List Term) :
    reduce env acc (.op op :: term :: rest) = (do
      let rhs ← evaluate env term
      reduce env (← Eval.ofExcept (op.apply acc rhs)) rest) := by
  have filled : ¬ term.operator?.isSome := by simp [operand]
  rw [reduce.eq_def]
  exact if_neg filled

/-- The operators are applied in turn, so the first ones can be applied on their own. -/
theorem reduce_append (more : List Term) : (acc : Value) → (terms : List Term) →
    reduce env acc (terms ++ .op op :: more) =
      reduce env acc terms >>= fun acc => reduce env acc (.op op :: more)
  | acc, [] => by
    rw [List.nil_append, reduce_nil, pure_bind]
  | acc, [head] => by
    rw [List.cons_append, List.nil_append]
    cases operator : head.operator? with
    | none => rw [reduce_operand env acc operator, reduce_operand env acc operator, Eval.throw_bind]
    | some first =>
      -- The operator that misses its operand has the other one next to it, which is none either.
      obtain rfl := Term.operator?_eq_some.mp operator
      rw [reduce_doubled, reduce_dangling, Eval.throw_bind]
  | acc, head :: term :: rest => by
    rw [List.cons_append, List.cons_append]
    cases operator : head.operator? with
    | none => rw [reduce_operand env acc operator, reduce_operand env acc operator, Eval.throw_bind]
    | some first =>
      obtain rfl := Term.operator?_eq_some.mp operator
      cases operand : term.operator? with
      | none =>
        simp only [reduce_apply env acc first operand, bind_assoc]
        simp only [reduce_append more _ rest]
      | some next =>
        obtain rfl := Term.operator?_eq_some.mp operand
        rw [reduce_doubled, reduce_doubled, Eval.throw_bind]

theorem evaluateExpr_append (more : List Term) {terms : List Term} (nonempty : terms ≠ []) :
    evaluateExpr env (terms ++ .op op :: more) =
      evaluateExpr env (.expr terms :: .op op :: more) := by
  obtain ⟨first, rest, rfl⟩ := List.exists_cons_of_ne_nil nonempty
  have outer : evaluateExpr env (.expr (first :: rest) :: .op op :: more) =
      evaluateExpr env (first :: rest) >>= fun acc => reduce env acc (.op op :: more) := by
    rw [evaluateExpr.eq_def]
    rfl
  rw [outer, List.cons_append]
  unfold evaluateExpr
  cases first.operator? with
  | some leading => rfl
  | none => simp only [bind_assoc, reduce_append]

end

/-- The terms before an operator, well-formed or not, may as well be an expression: over any log
the same value or the same error comes of it, and the same reports. -/
theorem expressions_associate {terms : List Term} (nonempty : terms ≠ []) (env : Env)
    (op : Operator) (x : Term) :
    evaluate env (.expr (terms ++ [.op op, x])) =
      evaluate env (.expr [.expr terms, .op op, x]) := by
  simp only [evaluate]
  exact evaluateExpr_append env op [x] nonempty

namespace TermSample

def unbound : Env := ⟨fun _ => .undefined, Registry.builtins, false, 7⟩

def unnamed : Term := .call [.text "nope"]

end TermSample

/-- A sum comes before the product that follows it, and an error of the sum before the report that
the product would make. -/
theorem expressions_associate_sum :
    evaluate TermSample.unbound (.expr [.expr [.uint 1, .op .add, .uint 2], .op .mul, .uint 3]) [] =
      .ok (.int 9) [] ∧
    evaluate TermSample.unbound
        (.expr [.expr [TermSample.unnamed, .op .add], .op .mul, TermSample.unnamed]) [] =
      .error (.eval (.missingOperand .add)) [.diagnostic (.unknownFunction "nope" 7)] := by
  have sum := @expressions_associate [.uint 1, .op .add, .uint 2] (List.cons_ne_nil _ _)
  have operand := @expressions_associate [TermSample.unnamed, .op .add] (List.cons_ne_nil _ _)
  rw [← sum, ← operand]
  exact ⟨rfl, rfl⟩

end ByteSchema
