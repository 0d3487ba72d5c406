import ByteSchema.Expr.Eval
import ByteSchema.Proofs.Decode.Ends

/-!
# Programs side by side

`Follows p m m'` compares the runs of two programs from states that are alike: they end with the
same result, or the same error, in states that are alike again, or the first one halts in a way for
which `p` lets them part. The second one may then go on, so all that is asked of a parting has to
stand whatever else it reports. `evaluate_follows` has this of terms, as soon as calls have it.
-/

namespace ByteSchema

variable {ε σ α β : Type}

/-- How two runs compare. -/
structure Pace (ε σ : Type) where
  alike : σ → σ → Prop
  reports : σ → List Diagnostic
  /-- The first run may halt, having reported the first list, where the second one has the other. -/
  parted : ε → List Diagnostic → List Diagnostic → Prop
  later {e : ε} {ds es es' : List Diagnostic} : parted e ds es → es <+: es' → parted e ds es'

/-- Whatever `m` does, what was reported before stays, in front of what it reports itself. -/
def Grows (reports : σ → List Diagnostic) (m : EStateM ε σ α) : Prop :=
  ∀ s, Ends m s (fun _ t => reports s <+: reports t) fun _ t => reports s <+: reports t

namespace Grows

variable {reports : σ → List Diagnostic}

theorem still {m : EStateM ε σ α}
    (hm : ∀ s, Ends m s (fun _ t => reports t = reports s) fun _ t => reports t = reports s) :
    Grows reports m :=
  fun s => (hm s).imp (fun _ _ ht => ht ▸ List.prefix_rfl) fun _ _ ht => ht ▸ List.prefix_rfl

theorem pure {a : α} : Grows reports (pure a : EStateM ε σ α) := .still fun _ => rfl

theorem throw {e : ε} : Grows reports (throw e : EStateM ε σ α) := .still fun _ => rfl

theorem bind {m : EStateM ε σ β} {f : β → EStateM ε σ α} (hm : Grows reports m)
    (hf : ∀ b, Grows reports (f b)) : Grows reports (m >>= f) := by
  intro s
  rw [ends_bind]
  refine (hm s).imp_done fun b t hst => ?_
  exact (hf b t).imp (fun _ _ htu => hst.trans htu) fun _ _ htu => hst.trans htu

end Grows

namespace Pace

/-- The ends of two runs: level, or parted. -/
inductive Pairs (p : Pace ε σ) : EStateM.Result ε σ α → EStateM.Result ε σ α → Prop where
  | ok {a : α} {t t' : σ} : p.alike t t' → Pairs p (.ok a t) (.ok a t')
  | error {e : ε} {t t' : σ} : p.alike t t' → Pairs p (.error e t) (.error e t')
  | partedOk {e : ε} {a : α} {t t' : σ} : p.parted e (p.reports t) (p.reports t') →
      Pairs p (.error e t) (.ok a t')
  | partedError {e e' : ε} {t t' : σ} : p.parted e (p.reports t) (p.reports t') →
      Pairs p (.error e t) (.error e' t')

namespace Pairs

variable {p : Pace ε σ}

theorem of_grows {m : EStateM ε σ α} {e : ε} {t s : σ} (hm : Grows p.reports m)
    (h : p.parted e (p.reports t) (p.reports s)) : p.Pairs (.error e t) (m s) := by
  -- What the second program reports on its way does not bring the two together again.
  have grown := hm s
  unfold Ends at grown
  split at grown
  · next hm => exact hm ▸ .partedOk (p.later h grown)
  · next hm => exact hm ▸ .partedError (p.later h grown)

theorem bind {m m' : EStateM ε σ β} {f f' : β → EStateM ε σ α} {s s' : σ}
    (hm : p.Pairs (m s) (m' s')) (hgrows : ∀ b, Grows p.reports (f' b))
    (hf : ∀ b t t', m s = .ok b t → p.alike t t' → p.Pairs (f b t) (f' b t')) :
    p.Pairs ((m >>= f) s) ((m' >>= f') s') := by
  rw [run_bind, run_bind]
  generalize hr : m s = r at hm ⊢
  generalize m' s' = r' at hm ⊢
  cases hm with
  | ok h => exact hf _ _ _ hr h
  | error h => exact .error h
  | partedOk h => exact of_grows (hgrows _) h
  | partedError h => exact .partedError h

end Pairs

end Pace

/-- From states that are alike, the runs of both programs end level or parted. -/
structure Follows (p : Pace ε σ) (m m' : EStateM ε σ α) : Prop where
  grows : Grows p.reports m'
  pairs : ∀ s s', p.alike s s' → p.Pairs (m s) (m' s')

namespace Follows

variable {p : Pace ε σ}

theorem pure {a : α} : Follows p (pure a) (pure a) := ⟨.pure, fun _ _ h => .ok h⟩

theorem throw {e : ε} : Follows p (throw e : EStateM ε σ α) (throw e) :=
  ⟨.throw, fun _ _ h => .error h⟩

theorem bind {m m' : EStateM ε σ β} {f f' : β → EStateM ε σ α} (hm : Follows p m m')
    (hf : ∀ b, Follows p (f b) (f' b)) : Follows p (m >>= f) (m' >>= f') where
  grows := hm.grows.bind fun b => (hf b).grows
  pairs s s' h := (hm.pairs s s' h).bind (fun b => (hf b).grows) fun b t t' _ ht =>
    (hf b).pairs t t' ht

theorem map {m m' : EStateM ε σ β} {f : β → α} (hm : Follows p m m') :
    Follows p (f <$> m) (f <$> m') :=
  hm.bind fun _ => .pure

end Follows

/-! ### Terms -/

section Terms

variable {p : Pace Error Log} {env env' : Env}

theorem Eval.ofExcept_follows {x : Except Error Value} :
    Follows p (Eval.ofExcept x) (Eval.ofExcept x) := by
  cases x with
  | ok v => exact .pure
  | error e => exact .throw

structure Env.Pairs (p : Pace Error Log) (env env' : Env) : Prop where
  resolve : env'.resolve = env.resolve
  call (name : String) (arguments : List Value) :
    Follows p (env.call name arguments) (env'.call name arguments)

mutual

theorem evaluate_follows (h : env.Pairs p env') :
    (term : Term) → Follows p (evaluate env term) (evaluate env' term)
  | .ref path => by
    unfold evaluate
    rw [h.resolve]
    exact .pure
  | .uint _ | .text _ | .bool _ => .pure
  | .op _ => .throw
  | .expr terms => evaluateExpr_follows h terms
  | .call children => evaluateCall_follows h children
  | .select condition cases =>
    (evaluate_follows h condition).bind fun v => select_follows h v cases

theorem evaluateExpr_follows (h : env.Pairs p env') :
    (terms : List Term) → Follows p (evaluateExpr env terms) (evaluateExpr env' terms)
  | [] => .pure
  | term :: rest => by
    unfold evaluateExpr
    split
    · exact .throw
    · exact (evaluate_follows h term).bind fun v => reduce_follows h v rest

theorem reduce_follows (h : env.Pairs p env') (acc : Value) :
    (terms : List Term) → Follows p (reduce env acc terms) (reduce env' acc terms)
  | [] => .pure
  | [head] => by
    unfold reduce
    cases head.operator? with
    | none | some _ => exact .throw
  | head :: term :: rest => by
    unfold reduce
    cases head.operator? with
    | none => exact .throw
    | some op =>
      dsimp only
      split
      · exact .throw
      · exact (evaluate_follows h term).bind fun v =>
          Eval.ofExcept_follows.bind fun acc => reduce_follows h acc rest

theorem evaluateCall_follows (h : env.Pairs p env') :
    (children : List Term) → Follows p (evaluateCall env children) (evaluateCall env' children)
  | [] => .throw
  | callee :: arguments => by
    have named (name : String) : Follows p (do env.call name (← evaluateAll env arguments))
        (do env'.call name (← evaluateAll env' arguments)) :=
      (evaluateAll_follows h arguments).bind fun vs => h.call name vs
    unfold evaluateCall
    split
    · exact named _
    · exact (evaluate_follows h callee).bind fun v => named v.display

theorem evaluateAll_follows (h : env.Pairs p env') :
    (terms : List Term) → Follows p (evaluateAll env terms) (evaluateAll env' terms)
  | [] => .pure
  | term :: rest =>
    (evaluate_follows h term).bind fun _ => (evaluateAll_follows h rest).bind fun _ => .pure

theorem select_follows (h : env.Pairs p env') (value : Value) :
    (cases : List (Term × Term)) → Follows p (select env value cases) (select env' value cases)
  | [] => .throw
  | (literal, result) :: rest => by
    unfold select
    refine (evaluate_follows h literal).bind fun v => ?_
    split
    · exact evaluate_follows h result
    · exact select_follows h value rest

end

end Terms

end ByteSchema
