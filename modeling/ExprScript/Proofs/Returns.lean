import ExprScript.Proofs.Evolution

/-!
# Evaluations that return

How many rounds a loop may run is a matter of patience, not of meaning: an evaluation that has ended
ends in the same way when its loops may run longer. So an expression returns, from an environment of
a machine, in one way at most, and `Expr.Returns` says so without a number of rounds.

* **`Expr.eval_mono`**: more rounds change no answer.
* `Expr.Returns`: the evaluation ends, if loops may run long enough.
* `Expr.Returns.unique`: it ends in one way only.
-/

namespace ExprScript

/-! ## More rounds -/

theorem repeatWhile_extends {condition condition' body body' : Env → Action Evaluation}
    (hc : ∀ env, (condition env).ExtendsTo (condition' env))
    (hb : ∀ env, (body env).ExtendsTo (body' env)) {n n' : Nat} (hn : n ≤ n')
    (last : Evaluation) :
    (repeatWhile condition body n last).ExtendsTo (repeatWhile condition' body' n' last) := by
  induction n generalizing n' last with
  | zero =>
    intro m p h
    cases h
  | succ n ih =>
    obtain ⟨k, rfl⟩ : ∃ k, n' = k + 1 := ⟨n' - 1, by omega⟩
    refine (hc last.env).bind fun checked => Attempt.ExtendsTo.refl.bind fun again => ?_
    cases again with
    | true => exact (hb checked.env).bind fun next => ih (by omega) next
    | false => exact .refl

namespace Expr

theorem operands_extend {n n' : Nat} {l r : Expr} {env : Env}
    (hl : (l.eval n env).ExtendsTo (l.eval n' env))
    (hr : ∀ env, (r.eval n env).ExtendsTo (r.eval n' env))
    (f : Value → Value → Except Cause Value) :
    Attempt.ExtendsTo (ε := Cause) (do
      let left ← l.eval n env
      let right ← r.eval n left.env
      let value ← Attempt.ofExcept (f left.value right.value)
      return (⟨value, right.env⟩ : Evaluation))
    (do
      let left ← l.eval n' env
      let right ← r.eval n' left.env
      let value ← Attempt.ofExcept (f left.value right.value)
      return ⟨value, right.env⟩) :=
  hl.bind fun left => (hr left.env).bind fun _ => .refl

mutual

/-- **More rounds change no answer.** -/
theorem eval_mono {n n' : Nat} (hn : n ≤ n') (e : Expr) (env : Env) :
    (e.eval n env).ExtendsTo (e.eval n' env) := by
  cases e with
  | literal v => exact .refl
  | var x => exact .refl
  | assign x e => exact (eval_mono hn e env).bind fun _ => .refl
  | arithmetic op l r | logical op l r | comparison op l r =>
    exact operands_extend (eval_mono hn l env) (eval_mono hn r) op.apply
  | not e => exact (eval_mono hn e env).bind fun _ => .refl
  | branch c y no =>
    refine (eval_mono hn c env).bind fun checked => Attempt.ExtendsTo.refl.bind fun b => ?_
    cases b
    · exact eval_mono hn no checked.env
    · exact eval_mono hn y checked.env
  | loop c b => exact repeatWhile_extends (eval_mono hn c) (eval_mono hn b) hn (.unit env)
  | sequence es | program es => exact evalAll_mono hn es (.unit env)
  | print e => exact (eval_mono hn e env).bind fun _ => .refl

theorem evalAll_mono {n n' : Nat} (hn : n ≤ n') (es : List Expr) (last : Evaluation) :
    (evalAll n es last).ExtendsTo (evalAll n' es last) := by
  cases es with
  | nil => exact .refl
  | cons e es => exact (eval_mono hn e last.env).bind fun r => evalAll_mono hn es r

end

/-! ## Returning -/

/-- From the environment `env` of the machine `m`, the expression comes to the result `r` and leaves
the machine `m'`, if loops may run long enough. -/
def Returns (e : Expr) (env : Env) (m : Machine) (r : Except Cause Evaluation) (m' : Machine) :
    Prop :=
  ∃ rounds, e.eval rounds env m = some (r, m')

namespace Returns

variable {e : Expr} {env : Env} {m m' : Machine} {r : Except Cause Evaluation}

theorem eventually (h : e.Returns env m r m') :
    ∃ n, ∀ k, n ≤ k → e.eval k env m = some (r, m') := by
  obtain ⟨n, hn⟩ := h
  exact ⟨n, fun k hk => eval_mono hk e env m _ hn⟩

/-- **An expression returns in one way.** -/
theorem unique {q : Except Cause Evaluation} {n : Machine} (h : e.Returns env m r m')
    (k : e.Returns env m q n) : r = q ∧ m' = n := by
  obtain ⟨i, hi⟩ := h.eventually
  obtain ⟨j, hj⟩ := k.eventually
  have heq := (hi (max i j) (Nat.le_max_left i j)).symm.trans (hj (max i j) (Nat.le_max_right i j))
  exact Prod.mk.inj (Option.some.inj heq)

end Returns

end Expr

end ExprScript
