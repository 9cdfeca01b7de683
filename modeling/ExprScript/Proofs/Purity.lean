import ExprScript.Proofs.Capacity
import ExprScript.Proofs.Unrolling

/-!
# Expressions without assignments

An expression that assigns nothing leaves no record and comes back to the environment that it was
evaluated in, also when it fails. If it prints nothing either, it leaves no trace at all, and gives
the same answer whenever it is asked again.

A loop lives on assignments. Its condition is asked again in the environment in which it was true,
and it cannot see what has been printed meanwhile. So if neither condition nor body assigns
anything, a loop that is entered never comes to an end, unless with a fault; one that succeeds has
not been entered.

* `Expr.Returns.inert`: what an expression without assignments leaves.
* `Expr.Returns.ok_unique`: a value that is given at all does not depend on what was printed before.
* `Expr.Rounds.eq_zero`: without assignments, no false condition comes after a complete round.
* **`Expr.eval_inert`**: evaluation without assignments, and loops without assignments.
-/

namespace ExprScript

namespace Expr

/-! ## No assignments, no printing -/

theorem Returns.exists_affects {e : Expr} {env : Env} {m m' : Machine}
    {r : Except Cause Evaluation} (h : e.Returns env m r m') :
    ∃ env', e.Affects env m env' m' ∧ ∀ s, r = .ok s → s.env = env' := by
  obtain ⟨k, h⟩ := h
  cases r with
  | ok s =>
    refine ⟨s.env, (e.eval_covered k env).ok h, fun t ht => ?_⟩
    cases ht
    rfl
  | error c =>
    obtain ⟨env', haffects⟩ := (e.eval_covered k env).error h
    exact ⟨env', haffects, nofun⟩

/-- **Without assignments** the environment is kept, and only the output may grow. -/
theorem Returns.inert {e : Expr} (he : ∀ x, ¬ e.Assigns x) {env : Env} {m m' : Machine}
    {r : Except Cause Evaluation} (h : e.Returns env m r m') :
    (∃ out, m' = ⟨m.arena, m.sink.keep out⟩) ∧ ∀ s, r = .ok s → s.env = env := by
  obtain ⟨env', haffects, henv⟩ := h.exists_affects
  obtain ⟨rfl, harena⟩ := haffects.arena_eq he
  obtain ⟨k, hk⟩ := h
  obtain ⟨out, hout⟩ := (e.eval_blind k env').adds hk
  exact ⟨⟨out, by rw [← harena, ← hout]⟩, henv⟩

theorem Returns.eq_of_not_prints {e : Expr} (he : ∀ x, ¬ e.Assigns x) (hp : ¬ e.Prints) {env : Env}
    {m m' : Machine} {r : Except Cause Evaluation} (h : e.Returns env m r m') : m' = m := by
  obtain ⟨env', haffects, -⟩ := h.exists_affects
  have harena := (haffects.arena_eq he).2
  have hsink := haffects.sink_eq hp
  calc m' = ⟨m'.arena, m'.sink⟩ := rfl
    _ = m := by rw [harena, hsink]

/-! ## Loops -/

theorem Returns.ok_unique {e : Expr} {env : Env} {m m₁ m₂ : Machine} {out : ByteArray}
    {r s : Evaluation} (h : e.Returns env m (.ok r) m₁)
    (k : e.Returns env ⟨m.arena, m.sink.keep out⟩ (.ok s) m₂) : r = s := by
  obtain ⟨i, hi⟩ := h.eventually
  obtain ⟨j, hj⟩ := k.eventually
  have hcut := (e.eval_blind (max i j) env).cut m.arena (m.sink.roomier_keep out)
  rw [hi _ (Nat.le_max_left i j), hj _ (Nat.le_max_right i j)] at hcut
  -- one with less room is cut short with a fault, if at all
  cases hcut with
  | whole => rfl

theorem Rounds.eq_zero {c b : Expr} (hc : ∀ x, ¬ c.Assigns x) (hb : ∀ x, ¬ b.Assigns x)
    {last last' : Evaluation} {env : Env} {m m₁ m' : Machine} {n : Nat}
    (h : Rounds c b last m n last' m₁)
    (hstop : c.Returns last'.env m₁ (.ok ⟨.boolean false, env⟩) m') : n = 0 := by
  cases h with
  | none => rfl
  | next _ htrue hbody =>
    obtain ⟨⟨out, rfl⟩, henv⟩ := htrue.inert hc
    obtain rfl := henv _ rfl
    obtain ⟨⟨more, rfl⟩, henv'⟩ := hbody.inert hb
    rw [henv' _ rfl, Sink.keep_keep] at hstop
    cases htrue.ok_unique hstop

theorem Returns.of_loop {c b : Expr} (hc : ∀ x, ¬ c.Assigns x) (hb : ∀ x, ¬ b.Assigns x) {env : Env}
    {m m' : Machine} {r : Evaluation} (h : (loop c b).Returns env m (.ok r) m') :
    r = .unit env ∧ c.Returns env m (.ok ⟨.boolean false, env⟩) m' := by
  obtain ⟨n, last, m₁, hrounds, hstops⟩ := loop_returns_iff.1 h
  cases hstops with
  | done hfalse =>
    obtain rfl := hrounds.eq_zero hc hb hfalse
    cases hrounds
    have henv := (hfalse.inert hc).2 _ rfl
    dsimp only at henv
    rw [henv] at hfalse
    exact ⟨rfl, hfalse⟩

/-- **Evaluation without assignments changes no environment,** and without printing it can be
repeated. A loop that succeeds has not been entered. -/
theorem eval_inert :
    (∀ e : Expr, (∀ x, ¬ e.Assigns x) → ∀ env m r m', e.Returns env m r m' →
      m'.arena = m.arena ∧ (∀ s, r = .ok s → s.env = env) ∧
      (¬ e.Prints → m'.sink = m.sink ∧ ∀ q n, e.Returns env m' q n ↔ q = r ∧ n = m')) ∧
    ∀ c b : Expr, (∀ x, ¬ c.Assigns x) → (∀ x, ¬ b.Assigns x) → ∀ env m r m',
      (loop c b).Returns env m (.ok r) m' →
        r.value = .unit ∧ c.Returns env m (.ok ⟨.boolean false, env⟩) m' ∧
        ∀ b', (loop c b').Returns env m (.ok r) m' := by
  refine ⟨fun e he env m r m' h => ?_, fun c b hc hb env m r m' h => ?_⟩
  · obtain ⟨⟨out, hout⟩, henv⟩ := h.inert he
    refine ⟨by rw [hout], henv, fun hp => ?_⟩
    obtain rfl := h.eq_of_not_prints he hp
    refine ⟨rfl, fun q n => ⟨fun hq => ?_, ?_⟩⟩
    · exact hq.unique h
    · rintro ⟨rfl, rfl⟩
      exact h
  · obtain ⟨rfl, hfalse⟩ := h.of_loop hc hb
    refine ⟨rfl, hfalse, fun b' => loop_returns_iff.2 ⟨0, _, m, .none, ?_⟩⟩
    exact .done hfalse

theorem eval_inert_loop :
    let m := Machine.fresh .unlimited
    let e := Expr.comparison .less (.literal (.integer 1)) (.literal .unit)
    let c := Expr.print (.literal (.boolean false))
    let b := Expr.print (.literal (.string "body"))
    let f := Cause.comparisonMismatch .less .integer .unit
    let m' : Machine := ⟨.empty, Sink.unlimited.keep "false\n".toUTF8⟩
    (∀ x, ¬ e.Assigns x) ∧ ¬ e.Prints ∧ e.Returns none m (.error f) m ∧
      (∀ q n, e.Returns none m q n ↔ q = .error f ∧ n = m) ∧
      (∀ x, ¬ c.Assigns x) ∧ (∀ x, ¬ b.Assigns x) ∧
      (loop c b).Returns none m (.ok (.unit none)) m' ∧
      ∀ b', (loop c b').Returns none m (.ok (.unit none)) m' := by
  intro m e c b f m'
  have he : ∀ x, ¬ e.Assigns x := by simp [e, Assigns, parts]
  have hp : ¬ e.Prints := by simp [e, Prints, parts]
  have hfails : e.Returns none m (.error f) m := ⟨0, rfl⟩
  have hc : ∀ x, ¬ c.Assigns x := by simp [c, Assigns, parts]
  have hb : ∀ x, ¬ b.Assigns x := by simp [b, Assigns, parts]
  have hloop : (loop c b).Returns none m (.ok (.unit none)) m' := ⟨1, rfl⟩
  obtain ⟨hinert, hloops⟩ := eval_inert
  exact ⟨he, hp, hfails, ((hinert e he _ _ _ _ hfails).2.2 hp).2, hc, hb, hloop,
    (hloops c b hc hb _ _ _ _ hloop).2.2⟩

end Expr

end ExprScript
