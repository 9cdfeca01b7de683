import ExprScript.Proofs.Evolution

/-!
# Environments that agree

Evaluation sees an environment only through the values of the names that occur in the expression.
Where in the arena a binding stands, what lies between two bindings and which other names are bound
makes no difference. So two evaluations of one expression, from environments that agree on its
names, go through the same values and add the same bindings, each to its own environment.

* `Expr.names`: the names of an expression.
* `Arena.entries`: the names and values of an environment, without their places.
* `Agree`: two environments give some names the same values.
* `Together`: two runs that end alike; `Together.bind`.
* **`Expr.eval_together`**: evaluations from environments that agree.
-/

namespace ExprScript

namespace Expr

mutual

/-- The names that occur in an expression, read or assigned. -/
def names : Expr → List String
  | literal _ => []
  | var x => [x]
  | assign x e => x :: e.names
  | arithmetic _ l r | logical _ l r | comparison _ l r => l.names ++ r.names
  | not e | print e => e.names
  | branch c y n => c.names ++ (y.names ++ n.names)
  | loop c b => c.names ++ b.names
  | sequence es | program es => namesAll es

/-- The names that occur in a list of expressions. -/
def namesAll : List Expr → List String
  | [] => []
  | e :: es => e.names ++ namesAll es

end

end Expr

/-! ## Entries -/

/-- The names and values of an environment, innermost first. -/
def Arena.entries (a : Arena) (env : Env) : List (String × Value) :=
  (a.chain env).map fun b => (b.name, b.value)

theorem Arena.lookup_entries (a : Arena) (env : Env) (x : String) :
    (a.entries env).lookup x = (a.lookup env x).map Binding.value := by
  rw [entries, lookup_eq_find?]
  induction a.chain env with
  | nil => rfl
  | cons b bs ih =>
    by_cases h : b.name = x
    · simp [h]
    · have hx : (x == b.name) = false := by simpa using Ne.symm h
      simp [h, List.lookup_cons, hx, ih]

theorem Arena.entries_extend {a : Arena} {env : Env} (ha : a.Descends) (he : a.Holds env)
    (x : String) (v : Value) :
    (a.extend env x v).2.entries (a.extend env x v).1 = (x, v) :: a.entries env := by
  rw [entries, chain_extend x v ha he]
  rfl

/-- The names in `S` have the same values. -/
def Agree (S : String → Prop) (es fs : List (String × Value)) : Prop :=
  ∀ x, S x → es.lookup x = fs.lookup x

theorem Agree.append {S : String → Prop} {es fs : List (String × Value)} (h : Agree S es fs)
    (news : List (String × Value)) : Agree S (news ++ es) (news ++ fs) := by
  intro x hx
  rw [List.lookup_append, List.lookup_append, h x hx]

/-! ## Two runs -/

/-- Two runs end alike: with values that `Q` relates, on their machines, or with one fault. -/
inductive Together {α β : Type} (Q : α → Machine → β → Machine → Prop) :
    Option (Except Cause α × Machine) → Option (Except Cause β × Machine) → Prop
  | spent : Together Q none none
  | fault (c : Cause) {m n : Machine} (h : m.sink = n.sink) :
      Together Q (some (.error c, m)) (some (.error c, n))
  | value {a : α} {b : β} {m n : Machine} (h : Q a m b n) :
      Together Q (some (.ok a, m)) (some (.ok b, n))

namespace Together

variable {α β α' β' : Type} {m n : Machine}

theorem bind {P : α → Machine → β → Machine → Prop} {Q : α' → Machine → β' → Machine → Prop}
    {x : Action α} {y : Action β} {f : α → Action α'} {g : β → Action β'}
    (h : Together P (x m) (y n))
    (hf : ∀ {a m' b n'}, x m = some (.ok a, m') → y n = some (.ok b, n') → P a m' b n' →
      Together Q (f a m') (g b n')) : Together Q ((x >>= f) m) ((y >>= g) n) := by
  rw [Attempt.bind_apply, Attempt.bind_apply]
  generalize x m = p at h hf ⊢
  generalize y n = q at h hf ⊢
  cases h with
  | spent => exact .spent
  | fault c h => exact .fault c h
  | value h => exact hf rfl rfl h

/-- Both runs go on from a result that is known already. -/
theorem ofExcept_bind {Q : α' → Machine → β' → Machine → Prop} (r : Except Cause α)
    {f : α → Action α'} {g : α → Action β'} (hsink : m.sink = n.sink)
    (hf : ∀ a, Together Q (f a m) (g a n)) :
    Together Q ((Attempt.ofExcept r >>= f) m) ((Attempt.ofExcept r >>= g) n) := by
  cases r with
  | error c => exact .fault c hsink
  | ok a => exact hf a

end Together

/-! ## Environments in step -/

/-- Two environments have the entries `es` and `fs`, behind others that are the same in both. -/
structure InStep (es fs : List (String × Value)) (env₁ : Env) (m₁ : Machine) (env₂ : Env)
    (m₂ : Machine) : Prop where
  left : m₁.Sound env₁
  right : m₂.Sound env₂
  sink : m₁.sink = m₂.sink
  entries : ∃ news, m₁.arena.entries env₁ = news ++ es ∧ m₂.arena.entries env₂ = news ++ fs

/-- The same value, in environments that are in step. -/
def SameValue (es fs : List (String × Value)) (r₁ : Evaluation) (m₁ : Machine) (r₂ : Evaluation)
    (m₂ : Machine) : Prop :=
  r₁.value = r₂.value ∧ InStep es fs r₁.env m₁ r₂.env m₂

namespace InStep

variable {S : String → Prop} {es fs : List (String × Value)} {env₁ env₂ : Env} {m₁ m₂ : Machine}

theorem lookup_eq (h : InStep es fs env₁ m₁ env₂ m₂) (hbase : Agree S es fs) {x : String}
    (hx : S x) :
    (m₁.arena.lookup env₁ x).map Binding.value = (m₂.arena.lookup env₂ x).map Binding.value := by
  obtain ⟨news, h₁, h₂⟩ := h.entries
  rw [← Arena.lookup_entries, ← Arena.lookup_entries, h₁, h₂]
  exact hbase.append news x hx

/-- Whatever else the machines go through, the environments stay in step. -/
theorem evolve (h : InStep es fs env₁ m₁ env₂ m₂) {env₁' env₂' : Env} {m₁' m₂' : Machine}
    (k₁ : Evolves env₁ m₁ env₁' m₁') (k₂ : Evolves env₂ m₂ env₂' m₂')
    (hsink : m₁'.sink = m₂'.sink) : InStep es fs env₁ m₁' env₂ m₂' where
  left := k₁.back.sound h.left
  right := k₂.back.sound h.right
  sink := hsink
  entries := by
    obtain ⟨news, h₁, h₂⟩ := h.entries
    refine ⟨news, ?_, ?_⟩
    · rw [Arena.entries, k₁.chain_eq h.left]
      exact h₁
    · rw [Arena.entries, k₂.chain_eq h.right]
      exact h₂

theorem extend (h : InStep es fs env₁ m₁ env₂ m₂) (x : String) (v : Value) :
    InStep es fs (m₁.arena.extend env₁ x v).1 (m₁.extend env₁ x v) (m₂.arena.extend env₂ x v).1
      (m₂.extend env₂ x v) where
  left := ⟨Arena.descends_extend x v h.left.descends h.left.holds, Arena.holds_extend _ _ x v⟩
  right := ⟨Arena.descends_extend x v h.right.descends h.right.holds, Arena.holds_extend _ _ x v⟩
  sink := h.sink
  entries := by
    obtain ⟨news, h₁, h₂⟩ := h.entries
    refine ⟨(x, v) :: news, ?_, ?_⟩
    · rw [Machine.extend_arena, Arena.entries_extend h.left.descends h.left.holds, h₁]
      rfl
    · rw [Machine.extend_arena, Arena.entries_extend h.right.descends h.right.holds, h₂]
      rfl

theorem read (h : InStep es fs env₁ m₁ env₂ m₂) (hbase : Agree S es fs) {x : String} (hx : S x) :
    Together (SameValue es fs) (Action.read env₁ x m₁) (Action.read env₂ x m₂) := by
  have hl := h.lookup_eq hbase hx
  rw [Action.read_apply, Action.read_apply]
  cases h₁ : m₁.arena.lookup env₁ x <;> cases h₂ : m₂.arena.lookup env₂ x <;>
    simp only [h₁, h₂, Option.map_some, Option.map_none, Option.some.injEq, reduceCtorEq] at hl
  · exact .fault _ h.sink
  · exact .value ⟨hl, h⟩

theorem assign (hbase : Agree S es fs) {x : String} (hx : S x) {r₁ r₂ : Evaluation}
    (hv : r₁.value = r₂.value) (h : InStep es fs r₁.env m₁ r₂.env m₂) :
    Together (SameValue es fs) (Action.assign x r₁ m₁) (Action.assign x r₂ m₂) := by
  have hl := h.lookup_eq hbase hx
  rw [Action.assign_apply, Action.assign_apply, hv]
  cases h₁ : m₁.arena.lookup r₁.env x <;> cases h₂ : m₂.arena.lookup r₂.env x <;>
    simp only [h₁, h₂, Option.map_some, Option.map_none, Option.some.injEq, reduceCtorEq] at hl
  · exact .value ⟨rfl, h.extend x r₂.value⟩
  · dsimp only
    rw [hl]
    split
    · exact .value ⟨rfl, h.extend x r₂.value⟩
    · exact .fault _ h.sink

theorem writeLine (text : String) (h : InStep es fs env₁ m₁ env₂ m₂) :
    Together (fun _ m₁ _ m₂ => InStep es fs env₁ m₁ env₂ m₂) (Action.writeLine text m₁)
      (Action.writeLine text m₂) := by
  have hw := (Evolves.refl env₁ m₁).write (text ++ "\n")
  have hw' := (Evolves.refl env₂ m₂).write (text ++ "\n")
  rw [Action.writeLine_apply, Action.writeLine_apply]
  rw [← h.sink] at hw' ⊢
  split
  · next k hk =>
    rw [hk] at hw hw'
    exact .value (h.evolve hw hw' rfl)
  · exact .fault _ rfl

end InStep

/-! ## Evaluation -/

/-- From any two environments in step, the actions give the same value or the same fault. -/
def Parallel (es fs : List (String × Value)) (x : Env → Action Evaluation) : Prop :=
  ∀ {env₁ env₂ : Env} {m₁ m₂ : Machine}, InStep es fs env₁ m₁ env₂ m₂ →
    Together (SameValue es fs) (x env₁ m₁) (x env₂ m₂)

namespace Parallel

variable {es fs : List (String × Value)}

theorem operands {rounds : Nat} {l r : Expr} (hl : Parallel es fs (l.eval rounds))
    (hr : Parallel es fs (r.eval rounds)) (f : Value → Value → Except Cause Value) :
    Parallel es fs fun env => do
      let left ← l.eval rounds env
      let right ← r.eval rounds left.env
      let value ← Attempt.ofExcept (f left.value right.value)
      return ⟨value, right.env⟩ := by
  intro env₁ env₂ m₁ m₂ h
  refine (hl h).bind fun {left₁ _ left₂ _} _ _ hleft => ?_
  refine (hr hleft.2).bind fun {right₁ _ right₂ _} _ _ hright => ?_
  rw [hleft.1, hright.1]
  exact .ofExcept_bind _ hright.2.sink fun v => .value ⟨rfl, hright.2⟩

/-- A loop gives up the environments of its last condition, and those before it are still in
step. -/
theorem repeatWhile {condition body : Env → Action Evaluation}
    (hc : Parallel es fs condition) (hb : Parallel es fs body)
    (htracks : ∀ env, Tracks env (condition env) Evaluation.env) (n : Nat)
    {last₁ last₂ : Evaluation} {m₁ m₂ : Machine} (h : SameValue es fs last₁ m₁ last₂ m₂) :
    Together (SameValue es fs) (ExprScript.repeatWhile condition body n last₁ m₁)
      (ExprScript.repeatWhile condition body n last₂ m₂) := by
  induction n generalizing last₁ last₂ m₁ m₂ with
  | zero => exact .spent
  | succ n ih =>
    refine (hc h.2).bind fun {checked₁ n₁ checked₂ n₂} e₁ e₂ hchecked => ?_
    rw [hchecked.1]
    refine .ofExcept_bind _ hchecked.2.sink fun again => ?_
    cases again with
    | true => exact (hb hchecked.2).bind fun _ _ hnext => ih hnext
    | false =>
      have hkeep := h.2.evolve ((htracks _).ok e₁) ((htracks _).ok e₂) hchecked.2.sink
      exact .value ⟨h.1, hkeep⟩

end Parallel

namespace Expr

variable {S : String → Prop} {es fs : List (String × Value)}

mutual

/-- **Evaluation sees only the values of the names in the expression.** -/
theorem eval_together (hbase : Agree S es fs) (rounds : Nat) (e : Expr) (hS : ∀ x ∈ e.names, S x) :
    Parallel es fs (e.eval rounds) := by
  intro env₁ env₂ m₁ m₂ h
  cases e with
  | literal v => exact .value ⟨rfl, h⟩
  | var x => exact h.read hbase (hS x (by simp [names]))
  | assign x e =>
    refine (eval_together hbase rounds e (fun y hy => hS y (by simp [names, hy])) h).bind
      fun _ _ hr => ?_
    exact InStep.assign hbase (hS x (by simp [names])) hr.1 hr.2
  | arithmetic op l r | logical op l r | comparison op l r =>
    exact Parallel.operands
      (eval_together hbase rounds l fun y hy => hS y (by simp [names, hy]))
      (eval_together hbase rounds r fun y hy => hS y (by simp [names, hy])) op.apply h
  | not e =>
    refine (eval_together hbase rounds e hS h).bind fun {r₁ _ r₂ _} _ _ hr => ?_
    rw [hr.1]
    exact .ofExcept_bind _ hr.2.sink fun v => .value ⟨rfl, hr.2⟩
  | branch c y n =>
    refine (eval_together hbase rounds c (fun x hx => hS x (by simp [names, hx])) h).bind
      fun {r₁ _ r₂ _} _ _ hr => ?_
    rw [hr.1]
    refine .ofExcept_bind _ hr.2.sink fun b => ?_
    cases b with
    | true => exact eval_together hbase rounds y (fun x hx => hS x (by simp [names, hx])) hr.2
    | false => exact eval_together hbase rounds n (fun x hx => hS x (by simp [names, hx])) hr.2
  | loop c b =>
    exact Parallel.repeatWhile
      (eval_together hbase rounds c fun y hy => hS y (by simp [names, hy]))
      (eval_together hbase rounds b fun y hy => hS y (by simp [names, hy]))
      (c.eval_tracks rounds) rounds ⟨rfl, h⟩
  | sequence items | program items => exact evalAll_together hbase rounds items hS ⟨rfl, h⟩
  | print e =>
    refine (eval_together hbase rounds e hS h).bind fun {r₁ _ r₂ _} _ _ hr => ?_
    rw [hr.1]
    exact (hr.2.writeLine _).bind fun _ _ hk => .value ⟨hr.1, hk⟩

theorem evalAll_together (hbase : Agree S es fs) (rounds : Nat) (items : List Expr)
    (hS : ∀ x ∈ namesAll items, S x) {last₁ last₂ : Evaluation} {m₁ m₂ : Machine}
    (h : SameValue es fs last₁ m₁ last₂ m₂) :
    Together (SameValue es fs) (evalAll rounds items last₁ m₁) (evalAll rounds items last₂ m₂) := by
  cases items with
  | nil => exact .value h
  | cons e items =>
    refine (eval_together hbase rounds e (fun x hx => hS x (by simp [namesAll, hx])) h.2).bind
      fun _ _ hr => ?_
    exact evalAll_together hbase rounds items (fun x hx => hS x (by simp [namesAll, hx])) hr

end

end Expr

end ExprScript
