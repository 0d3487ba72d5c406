import ByteSchema.Proofs.Decode.Balance

/-!
# Programs that agree

`m'` agrees with `m` when both end alike, unless `m` halts in a way that `lost` allows for. The
operations on blocks carry agreement from a body to the whole, as long as the body only has to
agree from states with an invariant.
-/

namespace ByteSchema

/-- From `s`, both programs end alike, or `m` is lost. -/
def AgreeAt {α : Type} (lost : Halt → Prop) (m m' : Run α) (s : State) : Prop :=
  m' s = m s ∨ ∃ halt t, m s = .error halt t ∧ lost halt

/-- `m'` agrees with `m` from all states with the invariant. -/
def Agree {α : Type} {setting : Setting} (i : Invariant setting) (lost : Halt → Prop)
    (m m' : Run α) : Prop :=
  ∀ s, i.before s → AgreeAt lost m m' s

section

variable {α β : Type} {setting : Setting} {i : Invariant setting} {lost : Halt → Prop}

theorem AgreeAt.eq {m m' : Run α} {s : State} (h : AgreeAt (fun _ => False) m m' s) :
    m' s = m s := by
  obtain same | ⟨_, _, _, ⟨⟩⟩ := h
  exact same

theorem AgreeAt.refl {m : Run α} {s : State} : AgreeAt lost m m s := .inl rfl

theorem AgreeAt.bind {m m' : Run β} {f f' : β → Run α} {s : State} (hm : AgreeAt lost m m' s)
    (hf : ∀ b t, m s = .ok b t → AgreeAt lost (f b) (f' b) t) :
    AgreeAt lost (m >>= f) (m' >>= f') s := by
  unfold AgreeAt at hm
  rw [AgreeAt, run_bind, run_bind]
  cases h : m s with
  | ok b t =>
    obtain same | ⟨halt, u, hhalt, -⟩ := hm
    · rw [same, h]
      exact hf b t h
    · rw [h] at hhalt
      cases hhalt
  | error e t =>
    obtain same | ⟨halt, u, hhalt, hlost⟩ := hm
    · rw [same, h]
      exact .inl rfl
    · rw [h] at hhalt
      cases hhalt
      exact .inr ⟨_, _, rfl, hlost⟩

/-- The first programs are the same; the second ones agree where the first ends. -/
theorem AgreeAt.then {m : Run β} {f f' : β → Run α} {s : State}
    (hf : ∀ b t, m s = .ok b t → AgreeAt lost (f b) (f' b) t) :
    AgreeAt lost (m >>= f) (m >>= f') s :=
  .bind .refl hf

theorem Agree.refl {m : Run α} : Agree i lost m m := fun _ _ => .refl

theorem Agree.bind {m m' : Run β} {f f' : β → Run α} (hm : Agree i lost m m') (hkeeps : Keeps i m)
    (hf : ∀ b, Agree i lost (f b) (f' b)) : Agree i lost (m >>= f) (m' >>= f') :=
  fun s hs => .bind (hm s hs) fun b t ht => hf b t (hkeeps.next hs ht)

/-- The first programs are the same, and keep the invariant. -/
theorem Agree.after {m : Run β} {f f' : β → Run α} (hkeeps : Keeps i m)
    (hf : ∀ b, Agree i lost (f b) (f' b)) : Agree i lost (m >>= f) (m >>= f') :=
  Agree.refl.bind hkeeps hf

/-- Agreement on `m` between what comes before and after, which is the same on both sides. -/
theorem Agree.between {m m' : Run β} (hm : Agree i lost m m') {before : Run Unit}
    (hbefore : ∀ s u t, i.before s → before s = .ok u t → i.before t) (after : β → Run α) :
    Agree i lost (before >>= fun _ => m >>= after) (before >>= fun _ => m' >>= after) :=
  fun s h => .then fun u t ht => .bind (hm t (hbefore s u t h ht)) fun _ _ _ => .refl

namespace Block

theorem nested_agree {body body' : Run Unit} (h : Agree i lost body body') :
    Agree i lost (nested setting body) (nested setting body') := by
  refine h.between (fun s u t hs ht => ?_) fun _ => leave
  have hends : Ends (enter setting) s (fun _ t => i.before t) fun _ _ => True := by
    simp only [enter, ends_bind, ends_modify, ends_get]
    split
    · trivial
    · next deep => exact i.deeper hs deep
  exact hends.of_ok ht

theorem inScope_agree {body body' : Run Unit} (h : Agree i lost body body') (after : Run α) :
    Agree i lost (inScope body after) (inScope body' after) := by
  refine h.between (fun s u t hs ht => ?_) _
  cases ht
  exact i.still hs rfl rfl rfl rfl

theorem listItem_agree {body body' : Run Unit} (h : Agree i lost body body') (id : String)
    (stopWhen emitWhen : Option Term) :
    Agree i lost (listItem setting id stopWhen emitWhen body)
      (listItem setting id stopWhen emitWhen body') :=
  fun s hs => .bind (inScope_agree h _ s hs) fun _ _ _ => .refl

theorem regionItem_agree {body body' : Run Unit} (h : Agree i lost body body') (id : String) :
    Agree i lost (regionItem id body) (regionItem id body') :=
  fun s hs => .bind (inScope_agree h _ s hs) fun _ _ _ => .refl

theorem counted_agree {item item' : Run Bool} (hkeeps : Keeps i item)
    (h : Agree i lost item item') (n : Nat) : Agree i lost (counted item n) (counted item' n) := by
  induction n with
  | zero => exact .refl
  | succ n ih =>
    refine h.bind hkeeps fun last => ?_
    split
    · exact .refl
    · exact ih

theorem atRegionEnd_same {s t : State} {atEnd : Bool} (h : atRegionEnd s = .ok atEnd t) :
    t = s := by
  have same : Ends atRegionEnd s (fun _ t => t = s) fun _ _ => True := ends_atRegionEnd.mpr rfl
  exact same.of_ok h

/-- Also with another fuel, as long as both last to the end of the input. -/
theorem uncounted_agree {item item' : Run Bool} (hkeeps : Keeps i item)
    (h : Agree i lost item item') (toEnd : Bool) {fuel fuel' : Nat} {s : State} (hs : i.before s)
    (enough : s.cursor.remaining < fuel) (enough' : s.cursor.remaining < fuel') :
    AgreeAt lost (uncounted toEnd item fuel) (uncounted toEnd item' fuel') s := by
  induction fuel generalizing fuel' s with
  | zero => exact absurd enough (Nat.not_lt_zero _)
  | succ fuel ih =>
    obtain ⟨fuel', rfl⟩ : ∃ n, fuel' = n + 1 := ⟨fuel' - 1, by omega⟩
    unfold uncounted
    refine .then fun atEnd t ht => ?_
    obtain rfl := atRegionEnd_same ht
    split
    · exact .refl
    · refine .then fun start u hu => ?_
      cases hu
      refine .bind (h t hs) fun last u hu => ?_
      split
      · exact .refl
      · refine .then fun offset w hw => ?_
        cases hw
        split
        · exact .refl
        · next moved =>
          have less := ((hkeeps t hs).of_ok hu).remaining_lt moved
          exact ih (hkeeps.next hs hu) (by omega) (by omega)

theorem fill_agree {item item' : Run Unit} (hkeeps : Keeps i item) (h : Agree i lost item item')
    (stop : Nat) {fuel fuel' : Nat} {s : State} (hs : i.before s)
    (enough : stop - s.cursor.offset < fuel) (enough' : stop - s.cursor.offset < fuel') :
    AgreeAt lost (fill stop item fuel) (fill stop item' fuel') s := by
  induction fuel generalizing fuel' s with
  | zero => exact absurd enough (Nat.not_lt_zero _)
  | succ fuel ih =>
    obtain ⟨fuel', rfl⟩ : ∃ n, fuel' = n + 1 := ⟨fuel' - 1, by omega⟩
    unfold fill
    refine .then fun start u hu => ?_
    cases hu
    split
    · refine .bind (h s hs) fun _ t ht => .then fun offset w hw => ?_
      cases hw
      split
      · exact .refl
      · have forward := ((hkeeps s hs).of_ok ht).forward
        exact ih (hkeeps.next hs ht) (by omega) (by omega)
    · exact .refl

theorem runList_agree {body body' : Run Unit} (hkeeps : Keeps i body)
    (h : Agree i lost body body') (id : String) (count stopWhen emitWhen : Option Term) :
    Agree i lost (runList setting id count stopWhen emitWhen body)
      (runList setting id count stopWhen emitWhen body') := by
  have hitem := listItem_keeps hkeeps id stopWhen emitWhen
  have hitems := listItem_agree h id stopWhen emitWhen
  have op := Keeps.operational i
  refine .after (op.evalLimit count) fun count => .after op.offset fun _ =>
    .after (op.log _) fun _ => .after (op.write id _) fun _ => ?_
  cases count with
  | some n => exact counted_agree hitem hitems n
  | none =>
    refine fun s hs => .then fun c t ht => ?_
    cases ht
    exact uncounted_agree hitem hitems _ hs (Nat.lt_succ_self _) (Nat.lt_succ_self _)

theorem runBounded_agree {body body' : Run Unit} (hkeeps : Keeps i body)
    (h : Agree i lost body body') (id : String) (length : Term) :
    Agree i lost (runBounded setting id length body) (runBounded setting id length body') := by
  refine .after ((Keeps.operational i).evalLength length) fun n s hs => .then fun c t ht => ?_
  cases ht
  refine .then fun _ u hu => .then fun _ v hv => .then fun _ w hw => ?_
  cases hu
  cases hv
  cases hw
  exact .bind (fill_agree (regionItem_keeps hkeeps id) (regionItem_agree h id) _
    (opened_before hs n) (Nat.lt_succ_self _) (Nat.lt_succ_self _)) fun _ _ _ => .refl

theorem runTemplate_agree {call call' : Call} (h : ∀ template, Agree i lost (call template)
    (call' template)) (name : String) (arguments : Arguments) :
    Agree i lost (runTemplate setting call name arguments)
      (runTemplate setting call' name arguments) := by
  have op := Keeps.operational i
  have found : Settles setting (Run.ofExcept (setting.schema.template? name)) :=
    .ofExcept fun _ => Schema.template?_fails name
  refine .after found.keeps fun template =>
    .after (op.bindArguments name _ arguments) fun frame =>
    .after op.offset fun _ => .after (op.log _) fun _ =>
    (h template).between (fun s u t hs ht => ?_) _
  cases ht
  exact i.still hs rfl rfl rfl rfl

theorem inOrder_agree {body body' : Run Unit} (h : Agree i lost body body') (order : ByteOrder) :
    Agree i lost (inOrder order body) (inOrder order body') := by
  refine .after (Keeps.operational i).cursor fun c => h.between (fun s u t hs ht => ?_) _
  cases ht
  exact i.still hs rfl rfl rfl rfl

end Block

end

end ByteSchema
