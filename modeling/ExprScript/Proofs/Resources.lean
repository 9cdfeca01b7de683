import ExprScript.Proofs.Capacity
import Mathlib.Control.Monad.Basic

/-!
# What an evaluation takes

An expression without loops is evaluated in one pass over its nodes. Each of them is evaluated once
at most, and exactly once if nothing is skipped by a branch or by a fault. So its nodes say how deep
the recursion may go, how many bindings may be made and how many values may be printed.

Depth and printed values are no part of a machine. They are read off an evaluation that is watched,
and watching changes nothing.

* `Expr.height`, `Expr.count`: the height of an expression, and the number of its nodes of a kind.
* `Watched`, `Expr.watch`: an evaluation that is watched; **`Expr.watch_erases`**: it is evaluation.
* `Watch.Within`, **`Expr.watch_within`**: the recursion goes no deeper than the nodes do.
* `Watch.Spends`, **`Expr.watch_spends`**: what an evaluation without loops adds.
* **`Expr.eval_finishes`**: expressions without loops finish within their size.
-/

namespace ExprScript

/-! ## Size -/

namespace Expr

mutual

/-- The number of nodes on the longest way down from the root. -/
def height : Expr → Nat
  | literal _ | var _ => 1
  | assign _ e | not e | print e => e.height + 1
  | arithmetic _ l r | logical _ l r | comparison _ l r | loop l r => max l.height r.height + 1
  | branch c y n => max c.height (max y.height n.height) + 1
  | sequence es | program es => heightAll es + 1

/-- The greatest height of the expressions. -/
def heightAll : List Expr → Nat
  | [] => 0
  | e :: es => max e.height (heightAll es)

end

/-- The number of nodes of a kind. -/
def count (form : Form) (e : Expr) : Nat := e.parts.countP (·.form = form)

/-- The number of nodes of a kind in a list of expressions. -/
def countAll (form : Form) (es : List Expr) : Nat := (partsAll es).countP (·.form = form)

@[simp]
theorem countAll_nil (form : Form) : countAll form [] = 0 := rfl

@[simp]
theorem countAll_cons (form : Form) (e : Expr) (es : List Expr) :
    countAll form (e :: es) = e.count form + countAll form es := List.countP_append

theorem count_eq (form : Form) (e : Expr) :
    e.count form = countAll form e.children + if e.form = form then 1 else 0 := by
  rw [count, parts_eq, List.countP_cons]
  simp [countAll]

end Expr

/-! ## Watching -/

/-- A machine on which an evaluation is watched. -/
structure Watched where
  machine : Machine
  /-- How many evaluations, each within another, were under way at most. -/
  deepest : Nat
  /-- The values printed so far. -/
  printed : List Value
  deriving DecidableEq

/-- An attempt that changes a machine and is watched. -/
abbrev Watch := Attempt Watched Cause

namespace Watch

/-- An action on the machine. -/
def act {α : Type} (x : Action α) : Watch α := fun w =>
  (x w.machine).map fun p => (p.1, { w with machine := p.2 })

theorem act_apply {α : Type} {x : Action α} {w : Watched} {r : Except Cause α} {m : Machine}
    (h : x w.machine = some (r, m)) : act x w = some (r, { w with machine := m }) := by
  rw [act, h]
  rfl

/-- An evaluation within `level` others. -/
def enter {α : Type} (level : Nat) (x : Watch α) : Watch α := fun w =>
  x { w with deepest := max w.deepest (level + 1) }

/-- A value has been printed. -/
def note (v : Value) : Watch Unit := fun w => some (.ok (), { w with printed := w.printed ++ [v] })

/-- Two operands one after the other, and an operation on their values. -/
def operands (left right : Env → Watch Evaluation) (f : Value → Value → Except Cause Value)
    (env : Env) : Watch Evaluation := do
  let l ← left env
  let r ← right l.env
  let value ← Attempt.ofExcept (f l.value r.value)
  return ⟨value, r.env⟩

/-- A loop that is watched. -/
def repeatWhile (condition body : Env → Watch Evaluation) : Nat → Evaluation → Watch Evaluation
  | 0, _ => Attempt.spent
  | n + 1, last => do
    let checked ← condition last.env
    if ← Attempt.ofExcept (Construct.loop.decide checked.value) then
      let next ← body checked.env
      repeatWhile condition body n next
    else return last

end Watch

namespace Expr

mutual

/-- Evaluate an expression within `level` other evaluations, and watch. -/
def watch (rounds : Nat) (level : Nat) : Expr → Env → Watch Evaluation
  | literal v, env => Watch.enter level do
    return ⟨v, env⟩
  | var x, env => Watch.enter level do
    Watch.act (Action.read env x)
  | assign x e, env => Watch.enter level do
    let r ← watch rounds (level + 1) e env
    Watch.act (Action.assign x r)
  | arithmetic op l r, env => Watch.enter level do
    Watch.operands (watch rounds (level + 1) l) (watch rounds (level + 1) r) op.apply env
  | logical op l r, env => Watch.enter level do
    Watch.operands (watch rounds (level + 1) l) (watch rounds (level + 1) r) op.apply env
  | comparison op l r, env => Watch.enter level do
    Watch.operands (watch rounds (level + 1) l) (watch rounds (level + 1) r) op.apply env
  | not e, env => Watch.enter level do
    let r ← watch rounds (level + 1) e env
    let value ← Attempt.ofExcept r.value.negate
    return ⟨value, r.env⟩
  | branch c y n, env => Watch.enter level do
    let checked ← watch rounds (level + 1) c env
    if ← Attempt.ofExcept (Construct.branch.decide checked.value) then
      watch rounds (level + 1) y checked.env
    else watch rounds (level + 1) n checked.env
  | loop c b, env => Watch.enter level do
    Watch.repeatWhile (watch rounds (level + 1) c) (watch rounds (level + 1) b) rounds (.unit env)
  | sequence es, env => Watch.enter level do
    watchAll rounds (level + 1) es (.unit env)
  | program es, env => Watch.enter level do
    watchAll rounds (level + 1) es (.unit env)
  | print e, env => Watch.enter level do
    let r ← watch rounds (level + 1) e env
    Watch.act (Action.writeLine r.value.text)
    Watch.note r.value
    return r

/-- Evaluate the items one after the other, and watch. -/
def watchAll (rounds : Nat) (level : Nat) : List Expr → Evaluation → Watch Evaluation
  | [], last => return last
  | e :: es, last => do
    let r ← watch rounds level e last.env
    watchAll rounds level es r

end

end Expr

/-! ## Watching changes nothing -/

/-- Without what is only watched, the attempt is the action `y`. -/
def Watch.Erases {α : Type} (x : Watch α) (y : Action α) : Prop :=
  ∀ w, (x w).map (fun p => (p.1, p.2.machine)) = y w.machine

namespace Watch.Erases

variable {α β : Type}

theorem act (x : Action α) : (Watch.act x).Erases x := by
  intro w
  unfold Watch.act
  cases x w.machine <;> rfl

theorem pure (a : α) : Erases (Pure.pure a) (Pure.pure a) := fun _ => rfl

theorem ofExcept (r : Except Cause α) : Erases (Attempt.ofExcept r) (Attempt.ofExcept r) :=
  fun _ => rfl

theorem bind {x : Watch α} {y : Action α} {f : α → Watch β} {g : α → Action β} (hx : x.Erases y)
    (hf : ∀ a, (f a).Erases (g a)) : (x >>= f).Erases (y >>= g) := by
  intro w
  rw [Attempt.bind_apply, Attempt.bind_apply, ← hx w]
  rcases x w with _ | ⟨_ | a, v⟩
  · rfl
  · rfl
  · exact hf a v

theorem enter {x : Watch α} {y : Action α} (level : Nat) (hx : x.Erases y) :
    (Watch.enter level x).Erases y := fun w => hx { w with deepest := _ }

theorem note (v : Value) {x : Watch α} {y : Action α} (hx : x.Erases y) :
    (do Watch.note v; x).Erases y := fun w => hx { w with printed := _ }

theorem repeatWhile {condition body : Env → Watch Evaluation}
    {condition' body' : Env → Action Evaluation}
    (hc : ∀ env, (condition env).Erases (condition' env))
    (hb : ∀ env, (body env).Erases (body' env)) (n : Nat) (last : Evaluation) :
    (Watch.repeatWhile condition body n last).Erases
      (ExprScript.repeatWhile condition' body' n last) := by
  induction n generalizing last with
  | zero => exact fun _ => rfl
  | succ n ih =>
    refine (hc last.env).bind fun checked => (ofExcept _).bind fun again => ?_
    cases again with
    | true => exact (hb checked.env).bind ih
    | false => exact pure last

end Watch.Erases

namespace Expr

theorem operands_erase {rounds level : Nat} {l r : Expr} {env : Env}
    (hl : (l.watch rounds level env).Erases (l.eval rounds env))
    (hr : ∀ env, (r.watch rounds level env).Erases (r.eval rounds env))
    (f : Value → Value → Except Cause Value) :
    (Watch.operands (watch rounds level l) (watch rounds level r) f env).Erases (do
      let left ← l.eval rounds env
      let right ← r.eval rounds left.env
      let value ← Attempt.ofExcept (f left.value right.value)
      return ⟨value, right.env⟩) :=
  hl.bind fun left => (hr left.env).bind fun _ => (Watch.Erases.ofExcept _).bind fun _ => .pure _

mutual

/-- **Watching changes nothing.** -/
theorem watch_erases (rounds level : Nat) (e : Expr) (env : Env) :
    (e.watch rounds level env).Erases (e.eval rounds env) := by
  cases e with
  | literal v => exact .enter level (.pure _)
  | var x => exact .enter level (.act _)
  | assign x e => exact .enter level ((watch_erases rounds _ e env).bind fun r => .act _)
  | arithmetic op l r | logical op l r | comparison op l r =>
    exact .enter level
      (operands_erase (watch_erases rounds _ l env) (watch_erases rounds _ r) op.apply)
  | not e =>
    exact .enter level ((watch_erases rounds _ e env).bind fun r =>
      (Watch.Erases.ofExcept _).bind fun _ => .pure _)
  | branch c y n =>
    refine .enter level ((watch_erases rounds _ c env).bind fun checked =>
      (Watch.Erases.ofExcept _).bind fun b => ?_)
    cases b
    · exact watch_erases rounds _ n checked.env
    · exact watch_erases rounds _ y checked.env
  | loop c b =>
    exact .enter level (.repeatWhile (watch_erases rounds _ c) (watch_erases rounds _ b) rounds _)
  | sequence es | program es => exact .enter level (watchAll_erases rounds _ es (.unit env))
  | print e =>
    exact .enter level ((watch_erases rounds _ e env).bind fun r =>
      (Watch.Erases.act _).bind fun _ => .note _ (.pure r))

theorem watchAll_erases (rounds level : Nat) (es : List Expr) (last : Evaluation) :
    (watchAll rounds level es last).Erases (evalAll rounds es last) := by
  cases es with
  | nil => exact .pure last
  | cons e es =>
    exact (watch_erases rounds level e last.env).bind fun r => watchAll_erases rounds level es r

end

end Expr

/-! ## Depth -/

/-- No more than `limit` evaluations are under way at once. -/
def Watch.Within {α : Type} (x : Watch α) (limit : Nat) : Prop :=
  ∀ w r w', x w = some (r, w') → w'.deepest ≤ max w.deepest limit

namespace Watch.Within

variable {α β : Type} {limit : Nat}

theorem act (x : Action α) : (Watch.act x).Within limit := by
  intro w r w' h
  obtain ⟨p, -, hp⟩ := Option.map_eq_some_iff.1 h
  cases hp
  exact Nat.le_max_left _ _

theorem ofExcept (r : Except Cause α) : Within (Attempt.ofExcept r) limit := by
  intro w r w' h
  cases h
  exact Nat.le_max_left _ _

theorem pure (a : α) : Within (Pure.pure a) limit := ofExcept (.ok a)

theorem bind {x : Watch α} {f : α → Watch β} (hx : x.Within limit)
    (hf : ∀ a, (f a).Within limit) : (x >>= f).Within limit := by
  intro w r w' h
  rcases Attempt.bind_eq_some_iff.1 h with ⟨c, v, hc, hp⟩ | ⟨a, v, ha, hr⟩
  · cases hp
    exact hx w _ _ hc
  · have h₁ := hx w _ _ ha
    have h₂ := hf a v _ _ hr
    omega

theorem enter {x : Watch α} {level : Nat} (hlevel : level + 1 ≤ limit) (hx : x.Within limit) :
    (Watch.enter level x).Within limit := by
  intro w r w' h
  have hw : w'.deepest ≤ max (max w.deepest (level + 1)) limit := hx _ _ _ h
  omega

theorem note (v : Value) : (Watch.note v).Within limit := by
  intro w r w' h
  cases h
  exact Nat.le_max_left _ _

theorem repeatWhile {condition body : Env → Watch Evaluation}
    (hc : ∀ env, (condition env).Within limit) (hb : ∀ env, (body env).Within limit) (n : Nat)
    (last : Evaluation) : (Watch.repeatWhile condition body n last).Within limit := by
  induction n generalizing last with
  | zero =>
    intro w r w' h
    cases h
  | succ n ih =>
    refine (hc last.env).bind fun checked => (ofExcept _).bind fun again => ?_
    cases again with
    | true => exact (hb checked.env).bind ih
    | false => exact pure last

theorem operands {left right : Env → Watch Evaluation} (hl : ∀ env, (left env).Within limit)
    (hr : ∀ env, (right env).Within limit) (f : Value → Value → Except Cause Value) (env : Env) :
    (Watch.operands left right f env).Within limit :=
  (hl env).bind fun l => (hr l.env).bind fun _ => (ofExcept _).bind fun _ => pure _

end Watch.Within

namespace Expr

mutual

/-- **The recursion goes no deeper than the nodes do.** -/
theorem watch_within (rounds : Nat) {level limit : Nat} (e : Expr) (h : level + e.height ≤ limit)
    (env : Env) : (e.watch rounds level env).Within limit := by
  cases e with
  | literal v => exact .enter h (.pure _)
  | var x => exact .enter h (.act _)
  | assign x e =>
    rw [height] at h
    exact .enter (by omega) ((watch_within rounds e (by omega) env).bind fun _ => .act _)
  | arithmetic op l r | logical op l r | comparison op l r =>
    rw [height] at h
    exact .enter (by omega) (.operands (watch_within rounds l (by omega))
      (watch_within rounds r (by omega)) op.apply env)
  | not e =>
    rw [height] at h
    exact .enter (by omega) ((watch_within rounds e (by omega) env).bind fun _ =>
      (Watch.Within.ofExcept _).bind fun _ => .pure _)
  | branch c y n =>
    rw [height] at h
    refine .enter (by omega) ((watch_within rounds c (by omega) env).bind fun checked =>
      (Watch.Within.ofExcept _).bind fun b => ?_)
    cases b
    · exact watch_within rounds n (by omega) checked.env
    · exact watch_within rounds y (by omega) checked.env
  | loop c b =>
    rw [height] at h
    exact .enter (by omega) (.repeatWhile (watch_within rounds c (by omega))
      (watch_within rounds b (by omega)) rounds _)
  | sequence es | program es =>
    rw [height] at h
    exact .enter (by omega) (watchAll_within rounds es (by omega) (.unit env))
  | print e =>
    rw [height] at h
    exact .enter (by omega) ((watch_within rounds e (by omega) env).bind fun r =>
      (Watch.Within.act _).bind fun _ => (Watch.Within.note _).bind fun _ => .pure r)

theorem watchAll_within (rounds : Nat) {level limit : Nat} (es : List Expr)
    (h : level + heightAll es ≤ limit) (last : Evaluation) :
    (watchAll rounds level es last).Within limit := by
  cases es with
  | nil => exact .pure last
  | cons e es =>
    rw [heightAll] at h
    exact (watch_within rounds e (by omega) last.env).bind fun r =>
      watchAll_within rounds es (by omega) r

end

end Expr

/-! ## Bindings and printed values -/

/-- The values written out, each on a line of its own. -/
def Value.lines : List Value → ByteArray
  | [] => .empty
  | v :: vs => (v.text ++ "\n").toUTF8 ++ lines vs

theorem Value.lines_append (vs ws : List Value) : lines (vs ++ ws) = lines vs ++ lines ws := by
  induction vs with
  | nil => exact ByteArray.empty_append.symm
  | cons v vs ih => rw [List.cons_append, lines, lines, ih, ByteArray.append_assoc]

/-- From `w` to `w'`, the arena has grown by `n` bindings, and the values `vs` were printed. A sink
without a limit has taken in all their lines. -/
structure Watched.Adds (w w' : Watched) (n : Nat) (vs : List Value) : Prop where
  size : w'.machine.arena.size = w.machine.arena.size + n
  printed : w'.printed = w.printed ++ vs
  written : w.machine.sink.limit = none →
    w'.machine.sink = w.machine.sink.keep (Value.lines vs)

namespace Watched.Adds

theorem nothing {w w' : Watched} (hm : w'.machine = w.machine) (hp : w'.printed = w.printed) :
    w.Adds w' 0 [] where
  size := by rw [hm, Nat.add_zero]
  printed := by rw [hp, List.append_nil]
  written := fun _ => by rw [hm, Value.lines, Sink.keep_empty]

theorem trans {w₁ w₂ w₃ : Watched} {i j : Nat} {vs ws : List Value} (h : w₁.Adds w₂ i vs)
    (k : w₂.Adds w₃ j ws) : w₁.Adds w₃ (i + j) (vs ++ ws) where
  size := by rw [k.size, h.size, Nat.add_assoc]
  printed := by rw [k.printed, h.printed, List.append_assoc]
  written := by
    intro hl
    have hl₂ : w₂.machine.sink.limit = none := by rw [h.written hl]; exact hl
    rw [k.written hl₂, h.written hl, Sink.keep_keep, Value.lines_append]

end Watched.Adds

/-- The attempt ends, having added no more than `binds` bindings and having printed no more than
`prints` values. If it ends with a value these are the numbers, provided that `exact` holds. -/
def Watch.Spends {α : Type} (x : Watch α) (binds prints : Nat) (exact : Prop) : Prop :=
  ∀ w, ∃ r w' n vs, x w = some (r, w') ∧ w.Adds w' n vs ∧ n ≤ binds ∧ vs.length ≤ prints ∧
    (exact → ∀ a, r = .ok a → n = binds ∧ vs.length = prints)

theorem Action.assign_cases (x : String) (r : Evaluation) (m : Machine) :
    (∃ s, assign x r m = some (.ok s, m.extend r.env x r.value)) ∨
      ∃ c, assign x r m = some (.error c, m) := by
  rw [assign_apply]
  cases m.arena.lookup r.env x with
  | none => exact .inl ⟨_, rfl⟩
  | some b =>
    dsimp only
    split
    · exact .inl ⟨_, rfl⟩
    · exact .inr ⟨_, rfl⟩

namespace Watch.Spends

variable {α β : Type} {a b c d : Nat} {P Q : Prop}

theorem imp {x : Watch α} (h : x.Spends a b P) (hQ : Q → P) : x.Spends a b Q := by
  intro w
  obtain ⟨r, w', n, vs, hx, hadds, hn, hvs, hP⟩ := h w
  exact ⟨r, w', n, vs, hx, hadds, hn, hvs, fun hq => hP (hQ hq)⟩

/-- Some of what may be spent is not. -/
theorem weaken {x : Watch α} (h : x.Spends a b P) (hac : a ≤ c) (hbd : b ≤ d) :
    x.Spends c d False := by
  intro w
  obtain ⟨r, w', n, vs, hx, hadds, hn, hvs, -⟩ := h w
  exact ⟨r, w', n, vs, hx, hadds, Nat.le_trans hn hac, Nat.le_trans hvs hbd, False.elim⟩

theorem bind {x : Watch α} {f : α → Watch β} (hx : x.Spends a b P)
    (hf : ∀ v, (f v).Spends c d P) : (x >>= f).Spends (a + c) (b + d) P := by
  intro w
  obtain ⟨r, w₁, n, vs, h₁, hadds, hn, hvs, hP⟩ := hx w
  cases r with
  | error e =>
    exact ⟨.error e, w₁, n, vs, Attempt.bind_of_error h₁ f, hadds, by omega, by omega,
      fun _ _ => nofun⟩
  | ok v =>
    obtain ⟨q, w₂, n', vs', h₂, hadds', hn', hvs', hP'⟩ := hf v w₁
    refine ⟨q, w₂, n + n', vs ++ vs', (Attempt.bind_of_ok h₁ f).trans h₂, hadds.trans hadds',
      by omega, by rw [List.length_append]; omega, fun hp u hq => ?_⟩
    obtain ⟨rfl, rfl⟩ := hP hp v rfl
    obtain ⟨rfl, rfl⟩ := hP' hp u hq
    exact ⟨rfl, List.length_append⟩

/-- What costs nothing. -/
theorem free {x : Watch α}
    (h : ∀ w, ∃ r w', x w = some (r, w') ∧ w'.machine = w.machine ∧ w'.printed = w.printed) :
    x.Spends 0 0 P := by
  intro w
  obtain ⟨r, w', hx, hm, hp⟩ := h w
  exact ⟨r, w', 0, [], hx, .nothing hm hp, Nat.le_refl 0, Nat.le_refl 0, fun _ _ _ => ⟨rfl, rfl⟩⟩

theorem ofExcept (r : Except Cause α) : Spends (Attempt.ofExcept r) 0 0 P :=
  free fun w => ⟨r, w, rfl, rfl, rfl⟩

theorem pure (v : α) : Spends (Pure.pure v) 0 0 P := ofExcept (.ok v)

theorem bind_free {x : Watch α} {f : α → Watch β} (hx : x.Spends 0 0 P)
    (hf : ∀ v, (f v).Spends a b P) : (x >>= f).Spends a b P := by
  have h := hx.bind hf
  rwa [Nat.zero_add, Nat.zero_add] at h

theorem enter {x : Watch α} (level : Nat) (hx : x.Spends a b P) :
    (Watch.enter level x).Spends a b P := by
  intro w
  obtain ⟨r, w', n, vs, h, hadds, hrest⟩ := hx { w with deepest := max w.deepest (level + 1) }
  exact ⟨r, w', n, vs, h, ⟨hadds.size, hadds.printed, hadds.written⟩, hrest⟩

theorem operands {left right : Env → Watch Evaluation} (hl : ∀ env, (left env).Spends a b P)
    (hr : ∀ env, (right env).Spends c d P) (f : Value → Value → Except Cause Value) (env : Env) :
    (Watch.operands left right f env).Spends (a + c) (b + d) P :=
  (hl env).bind fun l => (hr l.env).bind fun _ => (ofExcept _).bind fun _ => pure _

theorem read (env : Env) (x : String) : (Watch.act (Action.read env x)).Spends 0 0 P := by
  refine free fun w => ?_
  rw [Watch.act, Action.read_apply]
  cases w.machine.arena.lookup env x <;> exact ⟨_, _, rfl, rfl, rfl⟩

theorem assign (x : String) (r : Evaluation) :
    (Watch.act (Action.assign x r)).Spends 1 0 P := by
  intro w
  rcases Action.assign_cases x r w.machine with ⟨s, hs⟩ | ⟨f, hf⟩
  · refine ⟨_, _, 1, [], act_apply hs, ⟨?_, ?_, ?_⟩, Nat.le_refl 1, Nat.le_refl 0,
      fun _ _ _ => ⟨rfl, rfl⟩⟩
    · exact Array.size_push _
    · exact (List.append_nil _).symm
    · exact fun _ => (Sink.keep_empty _).symm
  · exact ⟨_, _, 0, [], act_apply hf, .nothing rfl rfl, Nat.zero_le 1, Nat.le_refl 0,
      fun _ _ => nofun⟩

theorem print (r : Evaluation) :
    Spends (do Watch.act (Action.writeLine r.value.text); Watch.note r.value; return r) 0 1 P := by
  intro w
  have hline := Action.writeLine_apply r.value.text w.machine
  have hkept := fun hl => Sink.write_unlimited (s := w.machine.sink) hl (r.value.text ++ "\n")
  cases hw : w.machine.sink.write (r.value.text ++ "\n") with
  | mk answer sink =>
    rw [hw] at hline hkept
    cases answer with
    | ok =>
      refine ⟨.ok r, _, 0, [r.value], Attempt.bind_of_ok (act_apply hline) _, ⟨rfl, rfl, ?_⟩,
        Nat.le_refl 0, Nat.le_refl 1, fun _ _ _ => ⟨rfl, rfl⟩⟩
      intro hl
      rw [Value.lines, Value.lines, ByteArray.append_empty]
      exact (Prod.mk.inj (hkept hl)).2
    | error message =>
      -- a sink without a limit does not fail
      refine ⟨_, _, 0, [], Attempt.bind_of_error (act_apply hline) _, ⟨rfl, ?_, ?_⟩,
        Nat.le_refl 0, Nat.zero_le 1, fun _ _ => nofun⟩
      · exact (List.append_nil _).symm
      · intro hl
        cases (Prod.mk.inj (hkept hl)).1

end Watch.Spends

namespace Expr

mutual

/-- **What an evaluation without loops adds** is counted by its nodes. -/
theorem watch_spends (rounds level : Nat) (e : Expr) (he : e.count .loop = 0) (env : Env) :
    (e.watch rounds level env).Spends (e.count .assign) (e.count .print) (e.count .branch = 0) := by
  have hcount := fun form => count_eq form e
  cases e with
  | literal v => exact .enter level (.pure _)
  | var x => exact .enter level (.read env x)
  | assign x e =>
    simp only [hcount, children, countAll_cons, countAll_nil, Nat.add_zero, form, reduceCtorEq,
      ↓reduceIte] at he ⊢
    exact .enter level ((watch_spends rounds _ e he env).bind fun r => .assign x r)
  | arithmetic op l r | logical op l r | comparison op l r =>
    simp only [hcount, children, countAll_cons, countAll_nil, Nat.add_zero, form, reduceCtorEq,
      ↓reduceIte, Nat.add_eq_zero_iff] at he ⊢
    exact .enter level (.operands (fun env => (watch_spends rounds _ l he.1 env).imp And.left)
      (fun env => (watch_spends rounds _ r he.2 env).imp And.right) op.apply env)
  | not e =>
    simp only [hcount, children, countAll_cons, countAll_nil, Nat.add_zero, form, reduceCtorEq,
      ↓reduceIte] at he ⊢
    exact .enter level ((watch_spends rounds _ e he env).bind fun r =>
      (Watch.Spends.ofExcept _).bind fun _ => .pure _)
  | branch c y n =>
    simp only [hcount, children, countAll_cons, countAll_nil, Nat.add_zero, form, reduceCtorEq,
      ↓reduceIte, Nat.add_eq_zero_iff, Nat.succ_ne_self, and_false] at he ⊢
    refine .enter level (((watch_spends rounds _ c he.1 env).imp False.elim).bind fun checked =>
      .bind_free (.ofExcept _) fun b => ?_)
    -- one of the two is evaluated, and the nodes of both are counted
    cases b
    · exact (watch_spends rounds _ n he.2.2 checked.env).weaken (Nat.le_add_left _ _)
        (Nat.le_add_left _ _)
    · exact (watch_spends rounds _ y he.2.1 checked.env).weaken (Nat.le_add_right _ _)
        (Nat.le_add_right _ _)
  | loop c b =>
    simp only [hcount, form, ↓reduceIte] at he
    omega
  | sequence es | program es =>
    simp only [hcount, children, form, reduceCtorEq, ↓reduceIte, Nat.add_zero] at he ⊢
    exact .enter level (watchAll_spends rounds _ es he (.unit env))
  | print e =>
    simp only [hcount, children, countAll_cons, countAll_nil, Nat.add_zero, form, reduceCtorEq,
      ↓reduceIte] at he ⊢
    exact .enter level ((watch_spends rounds _ e he env).bind fun r => .print r)

theorem watchAll_spends (rounds level : Nat) (es : List Expr) (he : countAll .loop es = 0)
    (last : Evaluation) :
    (watchAll rounds level es last).Spends (countAll .assign es) (countAll .print es)
      (countAll .branch es = 0) := by
  cases es with
  | nil => exact .pure last
  | cons e es =>
    simp only [countAll_cons, Nat.add_eq_zero_iff] at he ⊢
    exact ((watch_spends rounds level e he.1 last.env).imp And.left).bind fun r =>
      (watchAll_spends rounds level es he.2 r).imp And.right

end

/-! ## Both -/

theorem growsTo_of_eval {rounds : Nat} {e : Expr} {env : Env} {m m' : Machine}
    {r : Except Cause Evaluation} (h : e.eval rounds env m = some (r, m')) :
    m.arena.GrowsTo m'.arena := by
  cases r with
  | ok s => exact ((e.eval_tracks rounds env).ok h).growsTo
  | error c => exact ((e.eval_tracks rounds env).error h).growsTo

/-- **Expressions without loops finish within their size:** depth, bindings and printed values are
bounded by the nodes, and without branches they are exact. -/
theorem eval_finishes (e : Expr) (he : e.count .loop = 0) (rounds : Nat) (env : Env)
    (m : Machine) :
    ∃ r m' deepest vs,
      e.watch rounds 0 env ⟨m, 0, []⟩ = some (r, ⟨m', deepest, vs⟩) ∧
      e.eval rounds env m = some (r, m') ∧ deepest ≤ e.height ∧
      m.arena.GrowsTo m'.arena ∧ m'.arena.size ≤ m.arena.size + e.count .assign ∧
      vs.length ≤ e.count .print ∧
      (m.sink.limit = none → m'.sink = m.sink.keep (Value.lines vs)) ∧
      (∀ s, r = .ok s → e.count .branch = 0 →
        m'.arena.size = m.arena.size + e.count .assign ∧ vs.length = e.count .print) := by
  obtain ⟨r, w, n, vs, hwatch, hadds, hn, hvs, hexact⟩ := e.watch_spends rounds 0 he env ⟨m, 0, []⟩
  have hsize : w.machine.arena.size = m.arena.size + n := hadds.size
  have hprinted : w.printed = vs := hadds.printed
  have heval : e.eval rounds env m = some (r, w.machine) := by
    rw [← e.watch_erases rounds 0 env ⟨m, 0, []⟩, hwatch]
    rfl
  have hlimit : 0 + e.height ≤ e.height := by omega
  have hdeep := e.watch_within rounds hlimit env _ _ _ hwatch
  rw [Nat.zero_max] at hdeep
  subst hprinted
  refine ⟨r, w.machine, w.deepest, w.printed, hwatch, heval, hdeep, growsTo_of_eval heval,
    by omega, hvs, hadds.written, fun s hs hb => ?_⟩
  obtain ⟨rfl, hlength⟩ := hexact hb s hs
  exact ⟨hsize, hlength⟩

/-- Both operands of a conjunction that is false are evaluated, each once. -/
theorem eval_finishes_conjunction :
    let e := logical .and (print (literal (.boolean false)))
      (sequence [assign "x" (literal (.boolean true)), print (var "x")])
    let m := Machine.fresh .unlimited
    let vs := [Value.boolean false, .boolean true]
    let m' : Machine := ⟨⟨#[⟨"x", .boolean true, none⟩]⟩,
      (m.sink.keep "false\n".toUTF8).keep "true\n".toUTF8⟩
    e.count .loop = 0 ∧ e.count .branch = 0 ∧
      e.watch 0 0 none ⟨m, 0, []⟩ = some (.ok ⟨.boolean false, some 0⟩, ⟨m', 4, vs⟩) ∧
      4 ≤ e.height ∧ m'.arena.size = m.arena.size + e.count .assign ∧
      vs.length = e.count .print ∧ m'.sink = m.sink.keep (Value.lines vs) := by
  intro e m vs m'
  have he : e.count .loop = 0 := by decide
  have hb : e.count .branch = 0 := by decide
  have hw : e.watch 0 0 none ⟨m, 0, []⟩ = some (.ok ⟨.boolean false, some 0⟩, ⟨m', 4, vs⟩) := by
    unfold e m' vs m
    decide +kernel
  obtain ⟨r, m₁, deepest, ws, hwatch, -, hdeep, -, -, -, hsink, hexact⟩ :=
    e.eval_finishes he 0 none m
  obtain ⟨rfl, hwatched⟩ := Prod.mk.inj (Option.some.inj (hwatch.symm.trans hw))
  cases hwatched
  obtain ⟨hsize, hlength⟩ := hexact _ rfl hb
  exact ⟨he, hb, hw, hdeep, hsize, hlength, hsink rfl⟩

end Expr

end ExprScript
