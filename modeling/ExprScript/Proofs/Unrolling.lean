import ExprScript.Proofs.Returns

/-!
# Loops unrolled

A loop is a sequence of rounds, condition and body in turn, that goes on for as long as the
condition holds. It comes to an end at the first condition that is not true, or at the first fault.
A round that is complete hands on the environment of its body; the condition that ends the loop
leaves its mark on the machine only, for what is given back is what the last round gave.

* `Expr.unrolled`: `n` rounds written out as a sequence.
* `Expr.Unrolls`: they succeed, and all their conditions are true.
* `Expr.Rounds`, `Expr.Stops`: one round after another, and how it ends; `Expr.unrolls_iff_rounds`.
* `Expr.loop_returns_iff`: a loop returns as it stops after some number of rounds.
* **`Expr.loop_unrolls`**: when a loop succeeds and when it fails, by its unrolled rounds.
-/

namespace ExprScript

namespace Expr

variable {c b : Expr}

/-! ## Rounds -/

/-- From `last` on the machine `m`, rounds of the loop with the condition `c` and the body `b` lead
to another result and machine. In each of them the condition is true. -/
inductive Rounds (c b : Expr) (last : Evaluation) (m : Machine) : Nat → Evaluation → Machine → Prop
  | none : Rounds c b last m 0 last m
  | next {n : Nat} {r r' : Evaluation} {env : Env} {m₁ m₂ m₃ : Machine}
      (h : Rounds c b last m n r m₁) (hc : c.Returns r.env m₁ (.ok ⟨.boolean true, env⟩) m₂)
      (hb : b.Returns env m₂ (.ok r') m₃) : Rounds c b last m (n + 1) r' m₃

theorem Rounds.cons {last r r' : Evaluation} {env : Env} {m m₁ m₂ m₃ : Machine} {n : Nat}
    (hc : c.Returns last.env m (.ok ⟨.boolean true, env⟩) m₁) (hb : b.Returns env m₁ (.ok r) m₂)
    (h : Rounds c b r m₂ n r' m₃) : Rounds c b last m (n + 1) r' m₃ := by
  induction h with
  | none => exact .next .none hc hb
  | next _ hc' hb' ih => exact .next ih hc' hb'

/-- How the loop ends when no other round is completed. -/
inductive Stops (c b : Expr) (last : Evaluation) (m : Machine) :
    Except Cause Evaluation → Machine → Prop
  | done {env : Env} {m' : Machine}
      (hc : c.Returns last.env m (.ok ⟨.boolean false, env⟩) m') : Stops c b last m (.ok last) m'
  | conditionFails {f : Cause} {m' : Machine} (hc : c.Returns last.env m (.error f) m') :
      Stops c b last m (.error f) m'
  | mismatch {v : Value} {env : Env} {m' : Machine}
      (hc : c.Returns last.env m (.ok ⟨v, env⟩) m') (hv : v.tag ≠ .boolean) :
      Stops c b last m (.error (.conditionMismatch .loop v.tag)) m'
  | bodyFails {f : Cause} {env : Env} {m₁ m' : Machine}
      (hc : c.Returns last.env m (.ok ⟨.boolean true, env⟩) m₁)
      (hb : b.Returns env m₁ (.error f) m') : Stops c b last m (.error f) m'

/-! ## Loops -/

section Condition

variable {condition body : Env → Action Evaluation} {last : Evaluation} {env : Env}
  {m m' : Machine}

theorem repeatWhile_of_true (n : Nat)
    (hc : condition last.env m = some (.ok ⟨.boolean true, env⟩, m')) :
    repeatWhile condition body (n + 1) last m =
      (body env >>= repeatWhile condition body n) m' := by
  rw [repeatWhile, Attempt.bind_of_ok hc]
  rfl

theorem repeatWhile_of_false (n : Nat)
    (hc : condition last.env m = some (.ok ⟨.boolean false, env⟩, m')) :
    repeatWhile condition body (n + 1) last m = some (.ok last, m') := by
  rw [repeatWhile, Attempt.bind_of_ok hc]
  rfl

theorem repeatWhile_of_tag (n : Nat) {v : Value} (hv : v.tag ≠ .boolean)
    (hc : condition last.env m = some (.ok ⟨v, env⟩, m')) :
    repeatWhile condition body (n + 1) last m =
      some (.error (.conditionMismatch .loop v.tag), m') := by
  rw [repeatWhile, Attempt.bind_of_ok hc, Construct.decide_of_tag hv]
  rfl

end Condition

theorem repeatWhile_cases {k n : Nat} {last : Evaluation} {m m' : Machine}
    {r : Except Cause Evaluation}
    (h : repeatWhile (c.eval k) (b.eval k) (n + 1) last m = some (r, m')) :
    Stops c b last m r m' ∨ ∃ env m₁ next m₂,
      c.Returns last.env m (.ok ⟨.boolean true, env⟩) m₁ ∧ b.Returns env m₁ (.ok next) m₂ ∧
        repeatWhile (c.eval k) (b.eval k) n next m₂ = some (r, m') := by
  rcases Attempt.bind_eq_some_iff.1 h with ⟨f, m₁, hc, heq⟩ | ⟨⟨v, env⟩, m₁, hc, -⟩
  · cases heq
    exact .inl (.conditionFails ⟨k, hc⟩)
  rcases Construct.loop.decide_eq v with ⟨_ | _, rfl, -⟩ | ⟨hv, -⟩
  · rw [repeatWhile_of_false n hc] at h
    cases h
    exact .inl (.done ⟨k, hc⟩)
  · rw [repeatWhile_of_true n hc] at h
    rcases Attempt.bind_eq_some_iff.1 h with ⟨f, m₂, hb, heq⟩ | ⟨next, m₂, hb, h⟩
    · cases heq
      exact .inl (.bodyFails ⟨k, hc⟩ ⟨k, hb⟩)
    · exact .inr ⟨env, m₁, next, m₂, ⟨k, hc⟩, ⟨k, hb⟩, h⟩
  · rw [repeatWhile_of_tag n hv hc] at h
    cases h
    exact .inl (.mismatch ⟨k, hc⟩ hv)

theorem exists_rounds_of_repeatWhile {k n : Nat} {last : Evaluation} {m m' : Machine}
    {r : Except Cause Evaluation}
    (h : repeatWhile (c.eval k) (b.eval k) n last m = some (r, m')) :
    ∃ i last' m₁, Rounds c b last m i last' m₁ ∧ Stops c b last' m₁ r m' := by
  induction n generalizing last m with
  | zero => cases h
  | succ n ih =>
    rcases repeatWhile_cases h with hstops | ⟨env, m₁, next, m₂, hc, hb, h⟩
    · exact ⟨0, last, m, .none, hstops⟩
    · obtain ⟨i, last', m₃, hrounds, hstops⟩ := ih h
      exact ⟨i + 1, last', m₃, hrounds.cons hc hb, hstops⟩

/-- The rest of a loop, after `last` on the machine `m`, returns. -/
def Repeats (c b : Expr) (last : Evaluation) (m : Machine) (r : Except Cause Evaluation)
    (m' : Machine) : Prop :=
  ∃ k n, repeatWhile (c.eval k) (b.eval k) n last m = some (r, m')

theorem Repeats.eventually {last : Evaluation} {m m' : Machine} {r : Except Cause Evaluation}
    (h : Repeats c b last m r m') :
    ∃ i, ∀ k n, i ≤ k → i ≤ n → repeatWhile (c.eval k) (b.eval k) n last m = some (r, m') := by
  obtain ⟨k, n, h⟩ := h
  refine ⟨max k n, fun k' n' hk hn => ?_⟩
  have hk : k ≤ k' := Nat.le_trans (Nat.le_max_left k n) hk
  have hn : n ≤ n' := Nat.le_trans (Nat.le_max_right k n) hn
  exact repeatWhile_extends (eval_mono hk c) (eval_mono hk b) hn last m _ h

theorem Stops.repeats {last : Evaluation} {m m' : Machine} {r : Except Cause Evaluation}
    (h : Stops c b last m r m') : Repeats c b last m r m' := by
  cases h with
  | done hc =>
    obtain ⟨k, hc⟩ := hc
    exact ⟨k, 1, repeatWhile_of_false 0 hc⟩
  | conditionFails hc =>
    obtain ⟨k, hc⟩ := hc
    exact ⟨k, 1, Attempt.bind_of_error hc _⟩
  | mismatch hc hv =>
    obtain ⟨k, hc⟩ := hc
    exact ⟨k, 1, repeatWhile_of_tag 0 hv hc⟩
  | bodyFails hc hb =>
    obtain ⟨i, hi⟩ := hc.eventually
    obtain ⟨j, hj⟩ := hb.eventually
    refine ⟨max i j, 1, ?_⟩
    rw [repeatWhile_of_true 0 (hi _ (Nat.le_max_left i j))]
    exact Attempt.bind_of_error (hj _ (Nat.le_max_right i j)) _

theorem Repeats.round {last next : Evaluation} {env : Env} {m m₁ m₂ m' : Machine}
    {r : Except Cause Evaluation} (hc : c.Returns last.env m (.ok ⟨.boolean true, env⟩) m₁)
    (hb : b.Returns env m₁ (.ok next) m₂) (h : Repeats c b next m₂ r m') :
    Repeats c b last m r m' := by
  obtain ⟨i, hi⟩ := hc.eventually
  obtain ⟨j, hj⟩ := hb.eventually
  obtain ⟨l, hl⟩ := h.eventually
  refine ⟨max i (max j l), l + 1, ?_⟩
  rw [repeatWhile_of_true l (hi _ (by omega)), Attempt.bind_of_ok (hj _ (by omega))]
  exact hl _ _ (by omega) (Nat.le_refl l)

theorem Rounds.repeats {last last' : Evaluation} {m m₁ m' : Machine} {n : Nat}
    {r : Except Cause Evaluation} (h : Rounds c b last m n last' m₁)
    (hr : Repeats c b last' m₁ r m') : Repeats c b last m r m' := by
  induction h with
  | none => exact hr
  | next _ hc hb ih => exact ih (.round hc hb hr)

/-- **A loop returns as it stops after some number of rounds.** -/
theorem loop_returns_iff {env : Env} {m m' : Machine} {r : Except Cause Evaluation} :
    (loop c b).Returns env m r m' ↔
      ∃ n last m₁, Rounds c b (.unit env) m n last m₁ ∧ Stops c b last m₁ r m' := by
  constructor
  · rintro ⟨k, h⟩
    exact exists_rounds_of_repeatWhile h
  · rintro ⟨n, last, m₁, hrounds, hstops⟩
    obtain ⟨i, hi⟩ := (hrounds.repeats hstops.repeats).eventually
    exact ⟨i, hi i i (Nat.le_refl i) (Nat.le_refl i)⟩

/-! ## Sequences -/

/-- The condition and the body of a loop, `n` times one after the other. -/
def unrolled (c b : Expr) (n : Nat) : Expr := sequence (List.replicate n [c, b]).flatten

/-- From `env` on the machine `m`, `n` unrolled rounds succeed with `last` and leave the machine
`m'`. The condition was true each time that it was evaluated. -/
def Unrolls (c b : Expr) (n : Nat) (env : Env) (m : Machine) (last : Evaluation) (m' : Machine) :
    Prop :=
  (unrolled c b n).Returns env m (.ok last) m' ∧
    ∀ i, i < n → ∃ r m₁ env' m₂, (unrolled c b i).Returns env m (.ok r) m₁ ∧
      c.Returns r.env m₁ (.ok ⟨.boolean true, env'⟩) m₂

theorem unrolled_zero_returns {env : Env} {m m' : Machine} {r : Except Cause Evaluation} :
    (unrolled c b 0).Returns env m r m' ↔ r = .ok (.unit env) ∧ m' = m := by
  constructor
  · rintro ⟨k, h⟩
    cases h
    exact ⟨rfl, rfl⟩
  · rintro ⟨rfl, rfl⟩
    exact ⟨0, rfl⟩

theorem unrolled_succ_returns {n : Nat} {env : Env} {m m' : Machine} {last : Evaluation} :
    (unrolled c b (n + 1)).Returns env m (.ok last) m' ↔
      ∃ r m₁ s m₂, (unrolled c b n).Returns env m (.ok r) m₁ ∧ c.Returns r.env m₁ (.ok s) m₂ ∧
        b.Returns s.env m₂ (.ok last) m' := by
  have hitems : (List.replicate (n + 1) [c, b]).flatten =
      (List.replicate n [c, b]).flatten ++ [c, b] := by
    rw [List.replicate_succ', List.flatten_concat]
  constructor
  · rintro ⟨k, h⟩
    rw [unrolled, hitems, eval, evalAll_append] at h
    obtain ⟨r, m₁, hn, h⟩ := Attempt.bind_ok_iff.1 h
    obtain ⟨s, m₂, hc, h⟩ := Attempt.bind_ok_iff.1 h
    obtain ⟨t, m₃, hb, h⟩ := Attempt.bind_ok_iff.1 h
    cases h
    exact ⟨r, m₁, s, m₂, ⟨k, hn⟩, ⟨k, hc⟩, ⟨k, hb⟩⟩
  · rintro ⟨r, m₁, s, m₂, hn, hc, hb⟩
    obtain ⟨i, hi⟩ := hn.eventually
    obtain ⟨j, hj⟩ := hc.eventually
    obtain ⟨l, hl⟩ := hb.eventually
    refine ⟨max i (max j l), ?_⟩
    rw [unrolled, hitems, eval, evalAll_append]
    refine Attempt.bind_ok_iff.2 ⟨r, m₁, hi _ (by omega), ?_⟩
    refine Attempt.bind_ok_iff.2 ⟨s, m₂, hj _ (by omega), ?_⟩
    exact Attempt.bind_ok_iff.2 ⟨last, m', hl _ (by omega), rfl⟩

/-- **Rounds are the unrolled sequence,** as long as all its conditions are true. -/
theorem unrolls_iff_rounds {n : Nat} {env : Env} {m m' : Machine} {last : Evaluation} :
    Unrolls c b n env m last m' ↔ Rounds c b (.unit env) m n last m' := by
  induction n generalizing last m' with
  | zero =>
    constructor
    · rintro ⟨h, -⟩
      obtain ⟨hr, rfl⟩ := unrolled_zero_returns.1 h
      cases hr
      exact .none
    · intro h
      cases h
      exact ⟨unrolled_zero_returns.2 ⟨rfl, rfl⟩, nofun⟩
  | succ n ih =>
    constructor
    · rintro ⟨h, htrue⟩
      obtain ⟨r, m₁, s, m₂, hn, hc, hb⟩ := unrolled_succ_returns.1 h
      -- the condition after `n` rounds is the last one of the sequence
      obtain ⟨r', m₁', env', m₂', hn', hc'⟩ := htrue n (Nat.lt_succ_self n)
      obtain ⟨hr, rfl⟩ := hn.unique hn'
      cases hr
      obtain ⟨hs, rfl⟩ := hc.unique hc'
      cases hs
      exact .next (ih.1 ⟨hn, fun i hi => htrue i (Nat.lt_succ_of_lt hi)⟩) hc hb
    · intro h
      cases h with
      | next h hc hb =>
        obtain ⟨hn, htrue⟩ := ih.2 h
        refine ⟨unrolled_succ_returns.2 ⟨_, _, _, _, hn, hc, hb⟩, fun i hi => ?_⟩
        rcases Nat.lt_succ_iff_lt_or_eq.1 hi with hi | rfl
        · exact htrue i hi
        · exact ⟨_, _, _, _, hn, hc⟩

/-- **A loop is its unrolled rounds**, as many as have true conditions. The environment of its last
condition is given up. -/
theorem loop_unrolls (c b : Expr) (env : Env) (m : Machine) :
    (∀ r m', (loop c b).Returns env m (.ok r) m' ↔
      ∃ n m₁ env', Unrolls c b n env m r m₁ ∧
        c.Returns r.env m₁ (.ok ⟨.boolean false, env'⟩) m') ∧
    (∀ r m₁, Unrolls c b 0 env m r m₁ ↔ r.value = .unit ∧ r.env = env ∧ m₁ = m) ∧
    ∀ f m', (loop c b).Returns env m (.error f) m' ↔
      ∃ n last m₁, Unrolls c b n env m last m₁ ∧
        (c.Returns last.env m₁ (.error f) m' ∨
          (∃ v env', c.Returns last.env m₁ (.ok ⟨v, env'⟩) m' ∧ v.tag ≠ .boolean ∧
            f = .conditionMismatch .loop v.tag) ∨
          ∃ env' m₂, c.Returns last.env m₁ (.ok ⟨.boolean true, env'⟩) m₂ ∧
            b.Returns env' m₂ (.error f) m') := by
  refine ⟨fun r m' => ?_, fun r m₁ => ?_, fun f m' => ?_⟩
  · rw [loop_returns_iff]
    constructor
    · rintro ⟨n, last, m₁, hrounds, hstops⟩
      cases hstops with
      | done hc => exact ⟨n, m₁, _, unrolls_iff_rounds.2 hrounds, hc⟩
    · rintro ⟨n, m₁, env', h, hc⟩
      exact ⟨n, r, m₁, unrolls_iff_rounds.1 h, .done hc⟩
  · constructor
    · rintro ⟨h, -⟩
      obtain ⟨hr, rfl⟩ := unrolled_zero_returns.1 h
      cases hr
      exact ⟨rfl, rfl, rfl⟩
    · rintro ⟨hv, rfl, rfl⟩
      refine ⟨unrolled_zero_returns.2 ⟨?_, rfl⟩, nofun⟩
      rw [Evaluation.unit, ← hv]
  · rw [loop_returns_iff]
    constructor
    · rintro ⟨n, last, m₁, hrounds, hstops⟩
      refine ⟨n, last, m₁, unrolls_iff_rounds.2 hrounds, ?_⟩
      cases hstops with
      | conditionFails hc => exact .inl hc
      | mismatch hc hv => exact .inr (.inl ⟨_, _, hc, hv, rfl⟩)
      | bodyFails hc hb => exact .inr (.inr ⟨_, _, hc, hb⟩)
    · rintro ⟨n, last, m₁, h, hstops⟩
      refine ⟨n, last, m₁, unrolls_iff_rounds.1 h, ?_⟩
      rcases hstops with hc | ⟨v, env', hc, hv, rfl⟩ | ⟨env', m₂, hc, hb⟩
      · exact .conditionFails hc
      · exact .mismatch hc hv
      · exact .bodyFails hc hb

/-- A condition that counts: its last count is in the arena, but not in the environment. -/
theorem loop_unrolls_counted :
    let c := sequence [assign "c" (.arithmetic .add (.var "c") (.literal (.integer 1))),
      .comparison .less (.var "i") (.literal (.integer 1))]
    let b := assign "i" (.arithmetic .add (.var "i") (.literal (.integer 1)))
    let a : Array Binding := #[⟨"i", .integer 0, none⟩, ⟨"c", .integer 0, some 0⟩]
    let a₁ := a ++ #[⟨"c", .integer 1, some 1⟩, ⟨"i", .integer 1, some 2⟩]
    let m : Machine := ⟨⟨a⟩, .unlimited⟩
    let m₁ : Machine := ⟨⟨a₁⟩, .unlimited⟩
    let m' : Machine := ⟨⟨a₁.push ⟨"c", .integer 2, some 3⟩⟩, .unlimited⟩
    Unrolls c b 1 (some 1) m ⟨.integer 1, some 3⟩ m₁ ∧
      c.Returns (some 3) m₁ (.ok ⟨.boolean false, some 4⟩) m' ∧
      (loop c b).Returns (some 1) m (.ok ⟨.integer 1, some 3⟩) m' := by
  intro c b a a₁ m m₁ m'
  have hunrolls : Unrolls c b 1 (some 1) m ⟨.integer 1, some 3⟩ m₁ := by
    refine ⟨⟨0, rfl⟩, fun i hi => ?_⟩
    obtain rfl := Nat.lt_one_iff.1 hi
    exact ⟨_, _, _, _, ⟨0, rfl⟩, ⟨0, rfl⟩⟩
  have hfalse : c.Returns (some 3) m₁ (.ok ⟨.boolean false, some 4⟩) m' := ⟨0, rfl⟩
  exact ⟨hunrolls, hfalse, ((loop_unrolls c b (some 1) m).1 _ _).2 ⟨1, m₁, _, hunrolls, hfalse⟩⟩

end Expr

end ExprScript
