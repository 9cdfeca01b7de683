import ExprScript.Proofs.BigStep
import ExprScript.Proofs.TagStability
import Mathlib.Order.Filter.AtTopBot.Basic

/-!
# Evaluation refines the big steps over finite maps

Environments are chains in a shared arena, and evaluation hands them on from part to part. Seen
through the map that an environment stands for, every evaluation is a big step, and every big step
is an evaluation that runs enough rounds.

* `Machine.outcome`: how an evaluation ended, with the map of its environment.
* `Expr.eval_bigStep`: an evaluation that ends is a big step.
* `Yields`, `BigStep.yields`: a big step is an evaluation that runs enough rounds.
* **`Session.Reachable.eval_refines`**: the two agree on every environment of a session.
-/

namespace ExprScript

open Filter

/-! ## The map of an environment -/

theorem Arena.store_extend {a : Arena} {env : Env} (ha : a.Descends) (he : a.Holds env)
    (x : String) (v : Value) :
    (a.extend env x v).2.store (a.extend env x v).1 = (a.store env).insert x v := by
  rw [store, chain_extend x v ha he]
  rfl

theorem Evolves.store_eq {env env' : Env} {m m' : Machine} (h : Evolves env m env' m')
    (hm : m.Sound env) : m'.arena.store env = m.arena.store env := by
  rw [Arena.store, h.chain_eq hm, Arena.store]

/-- How an evaluation on this machine ended, with the map of the environment it came to. -/
def Machine.outcome (m : Machine) (r : Except Cause Evaluation) : Outcome :=
  r.map fun s => (s.value, m.arena.store s.env)

@[simp]
theorem Machine.outcome_ok (m : Machine) (r : Evaluation) :
    m.outcome (.ok r) = .ok (r.value, m.arena.store r.env) := rfl

theorem Value.negate_eq (v : Value) :
    (∃ b, v = .boolean b ∧ v.negate = .ok (.boolean !b)) ∨
      v.tag ≠ .boolean ∧ v.negate = .error (.notMismatch v.tag) := by
  cases v with
  | boolean b => exact .inl ⟨b, rfl, rfl⟩
  | _ => exact .inr ⟨by simp [Value.tag], rfl⟩

theorem Expr.sound_of_eval {rounds : Nat} {e : Expr} {env : Env} {m m' : Machine}
    {r : Evaluation} (hm : m.Sound env) (h : e.eval rounds env m = some (.ok r, m')) :
    m'.Sound r.env :=
  ((Expr.eval_tracks rounds e env).ok h).sound hm

/-! ## Evaluations are big steps -/

/-- Whenever the action ends, started in `env`, it has taken the big step of the task. -/
def Task.Describes (t : Task) (env : Env) (x : Action Evaluation) : Prop :=
  ∀ {m m' : Machine} {r : Except Cause Evaluation}, m.Sound env → x m = some (r, m') →
    BigStep t (m.arena.store env) m.sink (m'.outcome r) m'.sink

namespace Task.Describes

variable {rounds : Nat} {env : Env}

theorem var (x : String) : (Task.expr (.var x)).Describes env (Action.read env x) := by
  intro m m' r _ h
  have hx := m.arena.lookup_store env x
  rw [Action.read_apply] at h
  cases hb : m.arena.lookup env x with
  | none =>
    rw [hb] at h hx
    cases h
    exact .undeclared _ hx
  | some b =>
    rw [hb] at h hx
    cases h
    exact .var _ hx

theorem assign {x : String} {e : Expr}
    (he : (Task.expr e).Describes env (e.eval rounds env)) :
    (Task.expr (.assign x e)).Describes env ((Expr.assign x e).eval rounds env) := by
  intro m m' r hm h
  rw [Expr.eval] at h
  rcases Attempt.bind_eq_some_iff.1 h with ⟨c, m₁, hv, hr⟩ | ⟨s, m₁, hv, h⟩
  · cases hr
    exact .assignFails x (he hm hv)
  have hs := Expr.sound_of_eval hm hv
  have hx := m₁.arena.lookup_store s.env x
  have hext := Arena.store_extend hs.descends hs.holds x s.value
  rw [Action.assign_apply] at h
  cases hb : m₁.arena.lookup s.env x with
  | none =>
    rw [hb] at h hx
    cases h
    rw [Machine.outcome_ok, Machine.extend_arena, hext]
    exact .assign (he hm hv) (by simp [hx])
  | some b =>
    rw [hb] at h hx
    dsimp only at h
    split at h
    · next ht =>
      cases h
      rw [Machine.outcome_ok, Machine.extend_arena, hext]
      refine .assign (he hm hv) fun w hw => ?_
      rwa [← Option.some.inj (hx.symm.trans hw)]
    · next ht =>
      cases h
      exact .assignMismatch (he hm hv) hx ht

theorem binary {o : Operator} {l r : Expr}
    (hl : (Task.expr l).Describes env (l.eval rounds env))
    (hr : ∀ env, (Task.expr r).Describes env (r.eval rounds env)) :
    (Task.expr (.binary o l r)).Describes env ((Expr.binary o l r).eval rounds env) := by
  intro m m' q hm h
  rw [Expr.eval_binary] at h
  rcases Attempt.bind_eq_some_iff.1 h with ⟨c, m₁, hv, hq⟩ | ⟨left, m₁, hv, h⟩
  · cases hq
    exact .leftFails o r (hl hm hv)
  have hs := Expr.sound_of_eval hm hv
  rcases Attempt.bind_eq_some_iff.1 h with ⟨c, m₂, hw, hq⟩ | ⟨right, m₂, hw, h⟩
  · cases hq
    exact .rightFails o (hl hm hv) (hr _ hs hw)
  have ho := o.gives_apply left.value right.value
  cases hu : o.apply left.value right.value with
  | error c =>
    rw [hu] at h ho
    cases h
    exact .binaryFault (hl hm hv) (hr _ hs hw) ho
  | ok u =>
    rw [hu] at h ho
    cases h
    exact .binary (hl hm hv) (hr _ hs hw) ho

theorem not {e : Expr} (he : (Task.expr e).Describes env (e.eval rounds env)) :
    (Task.expr (.not e)).Describes env ((Expr.not e).eval rounds env) := by
  intro m m' q hm h
  rw [Expr.eval] at h
  rcases Attempt.bind_eq_some_iff.1 h with ⟨c, m₁, hv, hq⟩ | ⟨⟨v, env₁⟩, m₁, hv, h⟩
  · cases hq
    exact .notFails (he hm hv)
  rcases v.negate_eq with ⟨b, rfl, hb⟩ | ⟨ht, hb⟩
  · rw [hb] at h
    cases h
    exact .not (he hm hv)
  · rw [hb] at h
    cases h
    exact .notMismatch (he hm hv) ht

theorem branch {c y n : Expr} (hc : (Task.expr c).Describes env (c.eval rounds env))
    (hy : ∀ env, (Task.expr y).Describes env (y.eval rounds env))
    (hn : ∀ env, (Task.expr n).Describes env (n.eval rounds env)) :
    (Task.expr (.branch c y n)).Describes env ((Expr.branch c y n).eval rounds env) := by
  intro m m' q hm h
  rw [Expr.eval] at h
  rcases Attempt.bind_eq_some_iff.1 h with ⟨f, m₁, hv, hq⟩ | ⟨⟨v, env₁⟩, m₁, hv, h⟩
  · cases hq
    exact .branchFails y n (hc hm hv)
  have hs := Expr.sound_of_eval hm hv
  rcases Construct.branch.decide_eq v with ⟨b, rfl, hb⟩ | ⟨ht, hb⟩
  · rw [hb] at h
    refine .branch (hc hm hv) ?_
    cases b
    · exact hn _ hs h
    · exact hy _ hs h
  · rw [hb] at h
    cases h
    exact .branchMismatch y n (hc hm hv) ht

theorem print {e : Expr} (he : (Task.expr e).Describes env (e.eval rounds env)) :
    (Task.expr (.print e)).Describes env ((Expr.print e).eval rounds env) := by
  intro m m' q hm h
  rw [Expr.eval] at h
  rcases Attempt.bind_eq_some_iff.1 h with ⟨c, m₁, hv, hq⟩ | ⟨s, m₁, hv, h⟩
  · cases hq
    exact .printFails (he hm hv)
  rw [Attempt.bind_apply, Action.writeLine_apply] at h
  rcases hk : m₁.sink.write (s.value.text ++ "\n") with ⟨_ | _, k⟩
  · rw [hk] at h
    cases h
    exact .printRefused (he hm hv) s.value.shows_text (Sink.takes_iff.2 hk)
  · rw [hk] at h
    cases h
    exact .print (he hm hv) s.value.shows_text (Sink.takes_iff.2 hk)

/-- The rest of a loop. The map of the condition that ends it is that of the round before. -/
theorem repeatWhile {c b : Expr} (hc : ∀ env, (Task.expr c).Describes env (c.eval rounds env))
    (hb : ∀ env, (Task.expr b).Describes env (b.eval rounds env)) (n : Nat) (last : Evaluation) :
    (Task.rounds c b last.value).Describes last.env
      (repeatWhile (c.eval rounds) (b.eval rounds) n last) := by
  induction n generalizing last with
  | zero =>
    intro m m' q _ h
    cases h
  | succ n ih =>
    intro m m' q hm h
    rw [ExprScript.repeatWhile] at h
    rcases Attempt.bind_eq_some_iff.1 h with ⟨f, m₁, hv, hq⟩ | ⟨⟨v, env₁⟩, m₁, hv, h⟩
    · cases hq
      exact .conditionFails b last.value (hc _ hm hv)
    have hs := Expr.sound_of_eval hm hv
    rcases Construct.loop.decide_eq v with ⟨_ | _, rfl, hd⟩ | ⟨ht, hd⟩
    · rw [hd] at h
      cases h
      have hev := (Expr.eval_tracks rounds c last.env).ok hv
      rw [Machine.outcome_ok, hev.store_eq hm]
      exact .stop b last.value (hc _ hm hv)
    · rw [hd, Attempt.bind_of_ok (Attempt.ofExcept_apply _ _)] at h
      rcases Attempt.bind_eq_some_iff.1 h with ⟨f, m₂, hw, hq⟩ | ⟨next, m₂, hw, h⟩
      · cases hq
        exact .bodyFails last.value (hc _ hm hv) (hb _ hs hw)
      · exact .again (hc _ hm hv) (hb _ hs hw) (ih next (Expr.sound_of_eval hs hw) h)
    · rw [hd] at h
      cases h
      exact .loopMismatch b last.value (hc _ hm hv) ht

end Task.Describes

mutual

/-- **An evaluation that ends is a big step.** -/
theorem Expr.eval_bigStep (rounds : Nat) (e : Expr) (env : Env) :
    (Task.expr e).Describes env (e.eval rounds env) := by
  cases e with
  | literal v =>
    intro m m' q _ h
    cases h
    exact .literal _ _ _
  | var x => exact Task.Describes.var x
  | assign x e => exact Task.Describes.assign (e.eval_bigStep rounds env)
  | arithmetic op l r =>
    exact Task.Describes.binary (o := .arithmetic op) (l.eval_bigStep rounds env)
      (r.eval_bigStep rounds)
  | logical op l r =>
    exact Task.Describes.binary (o := .logical op) (l.eval_bigStep rounds env)
      (r.eval_bigStep rounds)
  | comparison op l r =>
    exact Task.Describes.binary (o := .comparison op) (l.eval_bigStep rounds env)
      (r.eval_bigStep rounds)
  | not e => exact Task.Describes.not (e.eval_bigStep rounds env)
  | branch c y n =>
    exact Task.Describes.branch (c.eval_bigStep rounds env) (y.eval_bigStep rounds)
      (n.eval_bigStep rounds)
  | loop c b =>
    intro m m' q hm h
    exact .loop (Task.Describes.repeatWhile (c.eval_bigStep rounds) (b.eval_bigStep rounds) rounds
      (.unit env) hm h)
  | sequence es =>
    intro m m' q hm h
    exact .sequence (evalAll_bigStep rounds es (.unit env) hm h)
  | program es =>
    intro m m' q hm h
    exact .program (evalAll_bigStep rounds es (.unit env) hm h)
  | print e => exact Task.Describes.print (e.eval_bigStep rounds env)

theorem Expr.evalAll_bigStep (rounds : Nat) (es : List Expr) (last : Evaluation) :
    (Task.items es last.value).Describes last.env (Expr.evalAll rounds es last) := by
  cases es with
  | nil =>
    intro m m' q _ h
    cases h
    exact .done _ _ _
  | cons e es =>
    intro m m' q hm h
    rw [Expr.evalAll] at h
    rcases Attempt.bind_eq_some_iff.1 h with ⟨c, m₁, hv, hq⟩ | ⟨s, m₁, hv, h⟩
    · cases hq
      exact .itemFails es last.value (e.eval_bigStep rounds last.env hm hv)
    · exact .item (e.eval_bigStep rounds last.env hm hv)
        (evalAll_bigStep rounds es s (Expr.sound_of_eval hm hv) h)

end

/-! ## Big steps are evaluations -/

/-- With enough rounds the action ends with the outcome `o` and the sink `k`, and how it ends does
not depend on the number of rounds. The action may run `n` rounds of a loop in it, and `i` rounds of
the loop that it is. -/
def Yields (x : ℕ → ℕ → Action Evaluation) (m : Machine) (o : Outcome) (k : Sink) : Prop :=
  ∃ r m', (∃ j, ∀ᶠ n in atTop, ∀ i ≥ j, x n i m = some (r, m')) ∧
    m'.outcome r = o ∧ m'.sink = k

namespace Yields

variable {x : ℕ → ℕ → Action Evaluation} {m : Machine} {o : Outcome} {k k' : Sink}

theorem of_forall (r : Except Cause Evaluation) (m' : Machine)
    (h : ∀ n i, x n i m = some (r, m')) : Yields x m (m'.outcome r) m'.sink :=
  ⟨r, m', ⟨0, .of_forall fun n i _ => h n i⟩, rfl, rfl⟩

theorem bind {f : ℕ → ℕ → Evaluation → Action Evaluation} {v : Value} {τ : Store}
    (h : Yields x m (.ok (v, τ)) k)
    (hf : ∀ env' m', (∃ n i, x n i m = some (.ok ⟨v, env'⟩, m')) → m'.arena.store env' = τ →
      m'.sink = k → Yields (fun n i => f n i ⟨v, env'⟩) m' o k') :
    Yields (fun n i => x n i >>= f n i) m o k' := by
  obtain ⟨r, m₁, ⟨j, hr⟩, ho, hk⟩ := h
  cases r with
  | error c => cases ho
  | ok r =>
    cases ho
    obtain ⟨n, hn⟩ := hr.exists
    obtain ⟨q, m₂, ⟨j', hq⟩, hq', hk'⟩ := hf r.env m₁ ⟨n, j, hn j le_rfl⟩ rfl hk
    refine ⟨q, m₂, ⟨max j j', ?_⟩, hq', hk'⟩
    filter_upwards [hr, hq] with n hr hq i hi
    rw [Attempt.bind_of_ok (hr i (le_trans (le_max_left _ _) hi))]
    exact hq i (le_trans (le_max_right _ _) hi)

theorem bind_error {f : ℕ → ℕ → Evaluation → Action Evaluation} {c : Cause}
    (h : Yields x m (.error c) k) : Yields (fun n i => x n i >>= f n i) m (.error c) k := by
  obtain ⟨r, m₁, ⟨j, hr⟩, ho, hk⟩ := h
  cases r with
  | error c =>
    refine ⟨.error c, m₁, ⟨j, ?_⟩, ho, hk⟩
    filter_upwards [hr] with n hr i hi
    exact Attempt.bind_of_error (hr i hi) _
  | ok r => cases ho

theorem of_succ (h : Yields (fun n i => x n (i + 1)) m o k) : Yields x m o k := by
  obtain ⟨r, m', ⟨j, hr⟩, ho, hk⟩ := h
  refine ⟨r, m', ⟨j + 1, ?_⟩, ho, hk⟩
  filter_upwards [hr] with n hr i hi
  obtain ⟨i, rfl⟩ : ∃ l, i = l + 1 := ⟨i - 1, by omega⟩
  exact hr i (by omega)

/-- The rounds of a loop are bounded by the same number as those of the loops in it. -/
theorem diag (h : Yields x m o k) : Yields (fun n _ => x n n) m o k := by
  obtain ⟨r, m', ⟨j, hr⟩, ho, hk⟩ := h
  refine ⟨r, m', ⟨0, ?_⟩, ho, hk⟩
  filter_upwards [hr, eventually_ge_atTop j] with n hr hn i _
  exact hr n hn

end Yields

/-- Carry out a task, with at most `n` rounds of a loop in it and `i` rounds of the loop it is. -/
def Task.run (n i : ℕ) : Task → Env → Action Evaluation
  | expr e, env => e.eval n env
  | items es last, env => Expr.evalAll n es ⟨last, env⟩
  | rounds c b last, env => repeatWhile (c.eval n) (b.eval n) i ⟨last, env⟩

theorem Action.assign_of_tag {x : String} {r : Evaluation} {m : Machine}
    (h : ∀ w, (m.arena.store r.env).lookup x = some w → w.tag = r.value.tag) :
    Action.assign x r m =
      some (.ok ⟨r.value, (m.arena.extend r.env x r.value).1⟩, m.extend r.env x r.value) := by
  rw [Arena.lookup_store] at h
  rw [Action.assign_apply]
  cases hb : m.arena.lookup r.env x with
  | none => rfl
  | some b => simp [h b.value (by simp [hb])]

theorem Action.assign_of_tag_ne {x : String} {r : Evaluation} {m : Machine} {w : Value}
    (hw : (m.arena.store r.env).lookup x = some w) (ht : w.tag ≠ r.value.tag) :
    Action.assign x r m = some (.error (.assignmentMismatch x w.tag r.value.tag), m) := by
  rw [Arena.lookup_store] at hw
  obtain ⟨b, hb, rfl⟩ := Option.map_eq_some_iff.1 hw
  rw [Action.assign_apply, hb]
  simp [ht]

theorem Action.read_of_lookup {x : String} {env : Env} {m : Machine} {v : Value}
    (h : (m.arena.store env).lookup x = some v) :
    Action.read env x m = some (.ok ⟨v, env⟩, m) := by
  rw [Arena.lookup_store] at h
  obtain ⟨b, hb, rfl⟩ := Option.map_eq_some_iff.1 h
  rw [Action.read_apply, hb]

theorem Action.read_of_lookup_none {x : String} {env : Env} {m : Machine}
    (h : (m.arena.store env).lookup x = none) :
    Action.read env x m = some (.error (.undeclared x), m) := by
  rw [Arena.lookup_store, Option.map_eq_none_iff] at h
  rw [Action.read_apply, h]

theorem Action.writeLine_of_write {text : String} {m : Machine} {q : Except String Unit}
    {k : Sink} (h : m.sink.write (text ++ "\n") = (q, k)) :
    Action.writeLine text m = some (q.mapError Cause.outputFailed, ⟨m.arena, k⟩) := by
  rw [Action.writeLine_apply, h]
  cases q <;> rfl

theorem Value.negate_of_tag {v : Value} (h : v.tag ≠ .boolean) :
    v.negate = .error (.notMismatch v.tag) := by
  rcases v.negate_eq with ⟨b, rfl, -⟩ | ⟨-, hd⟩
  · exact absurd rfl h
  · exact hd

/-- **A big step is an evaluation** that runs enough rounds. -/
theorem BigStep.yields {t : Task} {σ : Store} {k k' : Sink} {o : Outcome}
    (h : BigStep t σ k o k') :
    ∀ {env : Env} {m : Machine}, m.Sound env → m.arena.store env = σ → m.sink = k →
      Yields (fun n i => t.run n i env) m o k' := by
  induction h with
  | literal v =>
    rintro env m - rfl rfl
    exact Yields.of_forall (.ok ⟨v, env⟩) m fun _ _ => rfl
  | var _ hx =>
    rintro env m - rfl rfl
    exact Yields.of_forall _ _ fun _ _ => Action.read_of_lookup hx
  | undeclared _ hx =>
    rintro env m - rfl rfl
    exact Yields.of_forall _ _ fun _ _ => Action.read_of_lookup_none hx
  | @assign x e v _ _ _ _ _ hx ih =>
    intro env m hm hσ hk
    refine (ih hm hσ hk).bind (f := fun _ _ r => Action.assign x r) ?_
    rintro env' m' ⟨n, i, hn⟩ rfl rfl
    have hs := Expr.sound_of_eval hm hn
    rw [← Arena.store_extend hs.descends hs.holds]
    exact Yields.of_forall _ _ fun _ _ => Action.assign_of_tag hx
  | @assignMismatch x _ _ _ _ _ _ _ _ hx ht ih =>
    intro env m hm hσ hk
    refine (ih hm hσ hk).bind (f := fun _ _ r => Action.assign x r) ?_
    rintro env' m' - rfl rfl
    exact Yields.of_forall _ _ fun _ _ => Action.assign_of_tag_ne hx ht
  | assignFails x _ ih =>
    intro env m hm hσ hk
    exact (ih hm hσ hk).bind_error
  | @binary op l r u v w _ _ _ _ _ _ _ _ ho ihl ihr =>
    intro env m hm hσ hk
    simp only [Task.run, Expr.eval_binary]
    refine (ihl hm hσ hk).bind fun env₁ m₁ ⟨n, i, hn⟩ hτ hk₁ => ?_
    refine (ihr (Expr.sound_of_eval hm hn) hτ hk₁).bind ?_
    rintro env₂ m₂ - rfl rfl
    refine Yields.of_forall (.ok ⟨u, env₂⟩) m₂ fun _ _ => ?_
    rw [← Operator.gives_iff.1 ho]
    rfl
  | @binaryFault op l r v w c _ _ _ _ _ _ _ _ ho ihl ihr =>
    intro env m hm hσ hk
    simp only [Task.run, Expr.eval_binary]
    refine (ihl hm hσ hk).bind fun env₁ m₁ ⟨n, i, hn⟩ hτ hk₁ => ?_
    refine (ihr (Expr.sound_of_eval hm hn) hτ hk₁).bind ?_
    rintro env₂ m₂ - rfl rfl
    refine Yields.of_forall (.error c) m₂ fun _ _ => ?_
    rw [← Operator.gives_iff.1 ho]
    rfl
  | leftFails op r _ ih =>
    intro env m hm hσ hk
    simp only [Task.run, Expr.eval_binary]
    exact (ih hm hσ hk).bind_error
  | rightFails op _ _ ihl ihr =>
    intro env m hm hσ hk
    simp only [Task.run, Expr.eval_binary]
    refine (ihl hm hσ hk).bind fun env₁ m₁ ⟨n, i, hn⟩ hτ hk₁ => ?_
    exact (ihr (Expr.sound_of_eval hm hn) hτ hk₁).bind_error
  | @not e b _ _ _ _ _ ih =>
    intro env m hm hσ hk
    simp only [Task.run, Expr.eval]
    refine (ih hm hσ hk).bind ?_
    rintro env' m' - rfl rfl
    exact Yields.of_forall (.ok ⟨.boolean (!b), env'⟩) m' fun _ _ => rfl
  | notMismatch _ ht ih =>
    intro env m hm hσ hk
    simp only [Task.run, Expr.eval]
    refine (ih hm hσ hk).bind ?_
    rintro env' m' - rfl rfl
    rw [Value.negate_of_tag ht]
    exact Yields.of_forall (.error _) m' fun _ _ => rfl
  | notFails _ ih | branchFails _ _ _ ih | printFails _ ih =>
    intro env m hm hσ hk
    simp only [Task.run, Expr.eval]
    exact (ih hm hσ hk).bind_error
  | @branch c y n b _ _ _ _ _ _ _ _ ihc ih =>
    intro env m hm hσ hk
    simp only [Task.run, Expr.eval]
    refine (ihc hm hσ hk).bind fun env₁ m₁ ⟨n, i, hn⟩ hτ hk₁ => ?_
    have h := ih (Expr.sound_of_eval hm hn) hτ hk₁
    cases b <;> exact h
  | branchMismatch y n _ ht ih =>
    intro env m hm hσ hk
    simp only [Task.run, Expr.eval]
    refine (ih hm hσ hk).bind ?_
    rintro env' m' - rfl rfl
    rw [Construct.decide_of_tag ht]
    exact Yields.of_forall (.error _) m' fun _ _ => rfl
  | sequence _ ih | program _ ih => exact ih
  | done last =>
    rintro env m - rfl rfl
    exact Yields.of_forall (.ok ⟨last, env⟩) m fun _ _ => rfl
  | item _ _ ihe ihs =>
    intro env m hm hσ hk
    simp only [Task.run, Expr.evalAll]
    exact (ihe hm hσ hk).bind fun env₁ m₁ ⟨n, i, hn⟩ hτ hk₁ =>
      ihs (Expr.sound_of_eval hm hn) hτ hk₁
  | itemFails es last _ ih =>
    intro env m hm hσ hk
    simp only [Task.run, Expr.evalAll]
    exact (ih hm hσ hk).bind_error
  | loop _ ih =>
    intro env m hm hσ hk
    exact (ih hm hσ hk).diag
  | @stop c b last _ _ _ _ _ ih =>
    rintro env m hm rfl hk
    refine Yields.of_succ ?_
    simp only [Task.run, repeatWhile]
    refine (ih hm rfl hk).bind ?_
    rintro env' m' ⟨n, i, hn⟩ - rfl
    rw [← ((Expr.eval_tracks n c env).ok hn).store_eq hm]
    exact Yields.of_forall (.ok ⟨last, env⟩) m' fun _ _ => rfl
  | again _ _ _ ihc ihb ih =>
    intro env m hm hσ hk
    refine Yields.of_succ ?_
    simp only [Task.run, repeatWhile]
    refine (ihc hm hσ hk).bind fun env₁ m₁ ⟨n, i, hn⟩ hτ hk₁ => ?_
    have hs := Expr.sound_of_eval hm hn
    exact (ihb hs hτ hk₁).bind fun env₂ m₂ ⟨n, i, hn⟩ hυ hk₂ =>
      ih (Expr.sound_of_eval hs hn) hυ hk₂
  | loopMismatch b last _ ht ih =>
    intro env m hm hσ hk
    refine Yields.of_succ ?_
    simp only [Task.run, repeatWhile]
    refine (ih hm hσ hk).bind ?_
    rintro env' m' - rfl rfl
    rw [Construct.decide_of_tag ht]
    exact Yields.of_forall (.error _) m' fun _ _ => rfl
  | conditionFails b last _ ih =>
    intro env m hm hσ hk
    refine Yields.of_succ ?_
    simp only [Task.run, repeatWhile]
    exact (ih hm hσ hk).bind_error
  | bodyFails last _ _ ihc ihb =>
    intro env m hm hσ hk
    refine Yields.of_succ ?_
    simp only [Task.run, repeatWhile]
    refine (ihc hm hσ hk).bind fun env₁ m₁ ⟨n, i, hn⟩ hτ hk₁ => ?_
    exact (ihb (Expr.sound_of_eval hm hn) hτ hk₁).bind_error
  | @print _ v _ _ _ _ _ k₂ _ hv hw ih =>
    intro env m hm hσ hk
    simp only [Task.run, Expr.eval]
    refine (ih hm hσ hk).bind ?_
    rintro env' m' - rfl rfl
    refine Yields.of_forall (.ok ⟨v, env'⟩) ⟨m'.arena, k₂⟩ fun _ _ => ?_
    rw [hv.eq_text] at hw
    exact Attempt.bind_of_ok (Action.writeLine_of_write (Sink.takes_iff.1 hw)) _
  | @printRefused _ _ _ message _ _ _ _ k₂ _ hv hw ih =>
    intro env m hm hσ hk
    simp only [Task.run, Expr.eval]
    refine (ih hm hσ hk).bind ?_
    rintro env' m' - rfl rfl
    refine Yields.of_forall (.error (.outputFailed message)) ⟨m'.arena, k₂⟩ fun _ _ => ?_
    rw [hv.eq_text] at hw
    exact Attempt.bind_of_error (Action.writeLine_of_write (Sink.takes_iff.1 hw)) _

/-! ## Agreement -/

/-- Two big steps of a task that an evaluation can take have one end. -/
theorem BigStep.unique {t : Task} {env : Env} {m : Machine} (hm : m.Sound env) {o o' : Outcome}
    {k k' : Sink} (h : BigStep t (m.arena.store env) m.sink o k)
    (h' : BigStep t (m.arena.store env) m.sink o' k') : o = o' ∧ k = k' := by
  obtain ⟨r, m₁, ⟨j, hr⟩, rfl, rfl⟩ := h.yields hm rfl rfl
  obtain ⟨r', m₂, ⟨j', hr'⟩, rfl, rfl⟩ := h'.yields hm rfl rfl
  obtain ⟨n, hn, hn'⟩ := (hr.and hr').exists
  have heq := (hn (max j j') (le_max_left _ _)).symm.trans (hn' (max j j') (le_max_right _ _))
  cases heq
  exact ⟨rfl, rfl⟩

theorem BigStep.exists_eval {e : Expr} {env : Env} {m : Machine} (hm : m.Sound env) {o : Outcome}
    {k : Sink} (h : BigStep (.expr e) (m.arena.store env) m.sink o k) :
    ∃ rounds r m', e.eval rounds env m = some (r, m') ∧ m'.outcome r = o ∧ m'.sink = k := by
  obtain ⟨r, m', ⟨j, hr⟩, ho, hk⟩ := h.yields hm rfl rfl
  obtain ⟨n, hn⟩ := hr.exists
  exact ⟨n, r, m', hn j le_rfl, ho, hk⟩

/-- **Evaluation refines the big steps.** In every environment of a session it ends as the big step
from its map does, and it ends if there is one. -/
theorem Session.Reachable.eval_refines {s : Session} (hs : s.Reachable) (env : Env)
    (he : env ∈ s.envs) (e : Expr) :
    (∀ rounds r m, e.eval rounds env s.machine = some (r, m) → ∀ o k,
      BigStep (.expr e) (s.machine.arena.store env) s.machine.sink o k ↔
        o = m.outcome r ∧ k = m.sink) ∧
    (∀ o k, BigStep (.expr e) (s.machine.arena.store env) s.machine.sink o k →
      ∃ rounds r m, e.eval rounds env s.machine = some (r, m) ∧ o = m.outcome r ∧ k = m.sink) ∧
    ∀ s' : Session, s'.Reachable → ∀ env' ∈ s'.envs,
      s'.machine.arena.store env' = s.machine.arena.store env →
      s'.machine.sink = s.machine.sink → ∀ rounds r m,
        e.eval rounds env s.machine = some (r, m) →
          ∃ rounds' r' m', e.eval rounds' env' s'.machine = some (r', m') ∧
            m'.outcome r' = m.outcome r ∧ m'.sink = m.sink := by
  have hm := hs.sound env he
  refine ⟨fun rounds r m h o k => ⟨fun ho => ?_, ?_⟩, fun o k h => ?_,
    fun s' hs' env' he' hσ hk rounds r m h => ?_⟩
  · exact ho.unique hm (e.eval_bigStep rounds env hm h)
  · rintro ⟨rfl, rfl⟩
    exact e.eval_bigStep rounds env hm h
  · obtain ⟨rounds, r, m, hr, ho, hk⟩ := h.exists_eval hm
    exact ⟨rounds, r, m, hr, ho.symm, hk.symm⟩
  · have hstep := e.eval_bigStep rounds env hm h
    rw [← hσ, ← hk] at hstep
    exact hstep.exists_eval (hs'.sound env' he')

/-- Counting, and printing a quotient rounded down and a truth value; `true / false` fails, for
`false` is a zero. -/
theorem Session.eval_refines_counting :
    let count := Expr.loop (.comparison .less (.var "n") (.literal (.integer 3)))
      (.assign "n" (.arithmetic .add (.var "n") (.literal (.integer 1))))
    let quotient := Expr.arithmetic .divide (.literal (.integer (-7))) (.var "n")
    let check := Expr.logical .or (.comparison .equal (.var "n") (.literal (.integer 1)))
      (.logical .and (.literal (.boolean true)) (.literal (.boolean false)))
    let counted : Arena :=
      ⟨#[⟨"n", .integer 1, none⟩, ⟨"n", .integer 2, some 0⟩, ⟨"n", .integer 3, some 1⟩]⟩
    let σ := Session.counting.machine.arena.store (some 0)
    Session.counting.Reachable ∧
      BigStep (.expr (.sequence [count, .print quotient, .print check])) σ .unlimited
        (.ok (.boolean false, counted.store (some 2)))
        { Sink.unlimited with kept := "-3\nfalse\n".toUTF8 } ∧
      (counted.store (some 2)).lookup "n" = some (.integer 3) ∧
      BigStep (.expr (.arithmetic .divide (.literal (.boolean true)) (.literal (.boolean false)))) σ
        .unlimited (.error (.divideByZero "true")) .unlimited := by
  intro count quotient check counted σ
  have hcount : (Expr.sequence [count, .print quotient, .print check]).eval 3 (some 0)
      Session.counting.machine = some (.ok ⟨.boolean false, some 2⟩,
        ⟨counted, { Sink.unlimited with kept := "-3\nfalse\n".toUTF8 }⟩) := by rfl
  have hzero : (Expr.arithmetic .divide (.literal (.boolean true)) (.literal (.boolean false))).eval
      0 (some 0) Session.counting.machine =
        some (.error (.divideByZero "true"), Session.counting.machine) := by rfl
  have henv : some 0 ∈ Session.counting.envs := by simp [Session.counting]
  have h := (Session.reachable_counting.eval_refines (some 0) henv _).1 3 _ _ hcount
  have h' := (Session.reachable_counting.eval_refines (some 0) henv _).1 0 _ _ hzero
  refine ⟨Session.reachable_counting, (h _ _).2 ⟨rfl, rfl⟩, ?_, (h' _ _).2 ⟨rfl, rfl⟩⟩
  rw [Arena.lookup_store]
  rfl

end ExprScript
