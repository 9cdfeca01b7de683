import ExprScript.Proofs.Environment
import ExprScript.Eval

/-!
# How a machine evolves

An evaluation changes its machine and its environment in four ways only: it adds a binding whose tag
agrees with the one in sight, it writes, it goes on from where it is, and a loop gives up the
environment of its last condition. `Evolves` says so once, and what every evaluation preserves is
shown by induction on it. `Expr.Affects` says which node of the expression each change is due to,
for what only some expressions preserve.

* `Expr.parts`, `Expr.children`, `Expr.form`: the nodes of an expression, what each is made of, and
  their kinds; `Expr.Assigns`, `Expr.Prints`: what some of them do.
* `Evolves`, `Expr.Affects`: what an evaluation may have done, and what one of this expression may.
* `Expr.Affects.arena_eq`, `Expr.Affects.sink_eq`: without assignments and without printing.
* **`Expr.eval_covered`**: every evaluation does what its nodes may do, also one that fails.
* **`Expr.eval_tracks`**: so every evaluation evolves its machine.
* `Machine.Sound`, `Evolves.sound`: records point to earlier ones, and the environment is one of
  them.
* `Evolves.growsTo`, `Evolves.suffix`: the arena grows, and so does the environment.
-/

namespace ExprScript

/-! ## The actions on a machine -/

/-- The machine with one more binding, in front of `env`. -/
def Machine.extend (m : Machine) (env : Env) (x : String) (v : Value) : Machine :=
  ⟨(m.arena.extend env x v).2, m.sink⟩

@[simp]
theorem Machine.extend_arena (m : Machine) (env : Env) (x : String) (v : Value) :
    (m.extend env x v).arena = (m.arena.extend env x v).2 := rfl

namespace Action

theorem read_apply (env : Env) (x : String) (m : Machine) :
    read env x m =
      match m.arena.lookup env x with
      | some b => some (.ok ⟨b.value, env⟩, m)
      | none => some (.error (.undeclared x), m) := by
  rw [read, Attempt.bind_apply, Attempt.state_apply]
  dsimp only
  cases m.arena.lookup env x <;> rfl

theorem assign_apply (x : String) (r : Evaluation) (m : Machine) :
    assign x r m =
      match m.arena.lookup r.env x with
      | none => some (.ok ⟨r.value, (m.arena.extend r.env x r.value).1⟩, m.extend r.env x r.value)
      | some b =>
        if b.value.tag = r.value.tag then
          some (.ok ⟨r.value, (m.arena.extend r.env x r.value).1⟩, m.extend r.env x r.value)
        else some (.error (.assignmentMismatch x b.value.tag r.value.tag), m) := by
  rw [assign, Attempt.bind_apply, Attempt.state_apply]
  dsimp only
  cases m.arena.lookup r.env x with
  | none => rfl
  | some b =>
    dsimp only
    split <;> rfl

theorem writeLine_apply (text : String) (m : Machine) :
    writeLine text m =
      match m.sink.write (text ++ "\n") with
      | (.ok (), k) => some (.ok (), ⟨m.arena, k⟩)
      | (.error message, k) => some (.error (.outputFailed message), ⟨m.arena, k⟩) := rfl

end Action

/-! ## Nodes -/

namespace Expr

mutual

/-- The nodes of an expression, itself first. -/
def parts : Expr → List Expr
  | literal v => [literal v]
  | var x => [var x]
  | assign x e => assign x e :: e.parts
  | arithmetic op l r => arithmetic op l r :: (l.parts ++ r.parts)
  | logical op l r => logical op l r :: (l.parts ++ r.parts)
  | comparison op l r => comparison op l r :: (l.parts ++ r.parts)
  | not e => not e :: e.parts
  | branch c y n => branch c y n :: (c.parts ++ (y.parts ++ n.parts))
  | loop c b => loop c b :: (c.parts ++ b.parts)
  | sequence es => sequence es :: partsAll es
  | program es => program es :: partsAll es
  | print e => print e :: e.parts

/-- The nodes of a list of expressions. -/
def partsAll : List Expr → List Expr
  | [] => []
  | e :: es => e.parts ++ partsAll es

end

/-- The expressions that a node is made of. -/
def children : Expr → List Expr
  | literal _ | var _ => []
  | assign _ e | not e | print e => [e]
  | arithmetic _ l r | logical _ l r | comparison _ l r | loop l r => [l, r]
  | branch c y n => [c, y, n]
  | sequence es | program es => es

theorem parts_eq (e : Expr) : e.parts = e :: partsAll e.children := by
  cases e <;> simp [parts, partsAll, children]

/-- What kind of node an expression is. -/
inductive Form where
  | literal (tag : Tag)
  | var
  | assign
  | arithmetic (op : Arithmetic)
  | logical (op : Logical)
  | not
  | comparison (op : Comparison)
  | branch
  | loop
  | sequence
  | program
  | print
  deriving DecidableEq

/-- The kind of the node itself. -/
def form : Expr → Form
  | literal v => .literal v.tag
  | var _ => .var
  | assign _ _ => .assign
  | arithmetic op _ _ => .arithmetic op
  | logical op _ _ => .logical op
  | not _ => .not
  | comparison op _ _ => .comparison op
  | branch _ _ _ => .branch
  | loop _ _ => .loop
  | sequence _ => .sequence
  | program _ => .program
  | print _ => .print

/-- Some node assigns to `x`. -/
def Assigns (e : Expr) (x : String) : Prop := ∃ a, assign x a ∈ e.parts

/-- Some node prints. -/
def Prints (e : Expr) : Prop := ∃ a, print a ∈ e.parts

mutual

/-- The nodes of a node are nodes. -/
theorem parts_subset {d : Expr} (e : Expr) (h : d ∈ e.parts) : d.parts ⊆ e.parts := by
  cases e with
  | literal | var =>
    obtain rfl := List.mem_singleton.1 h
    exact fun _ hp => hp
  | assign x e | not e | print e =>
    rcases List.mem_cons.1 h with rfl | h
    · exact fun _ hp => hp
    · exact fun _ hp => List.mem_cons_of_mem _ (parts_subset e h hp)
  | arithmetic op l r | logical op l r | comparison op l r | loop l r =>
    rcases List.mem_cons.1 h with rfl | h
    · exact fun _ hp => hp
    · refine fun _ hp => List.mem_cons_of_mem _ (List.mem_append.2 ?_)
      exact (List.mem_append.1 h).imp (parts_subset l · hp) (parts_subset r · hp)
  | branch c y n =>
    rcases List.mem_cons.1 h with rfl | h
    · exact fun _ hp => hp
    · refine fun _ hp => List.mem_cons_of_mem _ ?_
      rw [List.mem_append, List.mem_append] at h ⊢
      exact h.imp (parts_subset c · hp) (Or.imp (parts_subset y · hp) (parts_subset n · hp))
  | sequence es | program es =>
    rcases List.mem_cons.1 h with rfl | h
    · exact fun _ hp => hp
    · exact fun _ hp => List.mem_cons_of_mem _ (partsAll_subset es h hp)

theorem partsAll_subset {d : Expr} (es : List Expr) (h : d ∈ partsAll es) :
    d.parts ⊆ partsAll es := by
  cases es with
  | nil => cases h
  | cons e es =>
    refine fun _ hp => List.mem_append.2 ?_
    exact (List.mem_append.1 h).imp (parts_subset e · hp) (partsAll_subset es · hp)

end

theorem parts_of_loop {c b e : Expr} (h : loop c b ∈ e.parts) :
    c.parts ⊆ e.parts ∧ b.parts ⊆ e.parts := by
  have hsub := parts_subset e h
  exact ⟨fun _ hp => hsub (by simp [parts, hp]), fun _ hp => hsub (by simp [parts, hp])⟩

theorem Assigns.mono {e f : Expr} {x : String} (h : e.Assigns x) (hf : e.parts ⊆ f.parts) :
    f.Assigns x :=
  h.imp fun _ ha => hf ha

theorem Prints.mono {e f : Expr} (h : e.Prints) (hf : e.parts ⊆ f.parts) : f.Prints :=
  h.imp fun _ ha => hf ha

end Expr

/-! ## Evolution -/

/-- From the environment `env` on the machine `m`, an evaluation may come to the environment `env'`
on the machine `m'`. -/
inductive Evolves : Env → Machine → Env → Machine → Prop
  | refl (env : Env) (m : Machine) : Evolves env m env m
  /-- A binding is added, with the tag that its name has in sight. -/
  | bind {env env' : Env} {m m' : Machine} (h : Evolves env m env' m') (x : String) (v : Value)
      (hx : ∀ b, m'.arena.lookup env' x = some b → b.value.tag = v.tag) :
      Evolves env m (m'.arena.extend env' x v).1 (m'.extend env' x v)
  /-- A text is written, or as much of it as fits. -/
  | write {env env' : Env} {m m' : Machine} (h : Evolves env m env' m') (text : String) :
      Evolves env m env' ⟨m'.arena, (m'.sink.write text).2⟩
  /-- An environment is given up for one that led to it. -/
  | drop {env env₁ env₂ : Env} {m m₁ m₂ : Machine} (h : Evolves env m env₁ m₁)
      (k : Evolves env₁ m₁ env₂ m₂) : Evolves env m env₁ m₂

theorem Evolves.back {env env' : Env} {m m' : Machine} (h : Evolves env m env' m') :
    Evolves env m env m' :=
  (Evolves.refl env m).drop h

/-- From the environment `env` on the machine `m`, an evaluation of the expression may come to the
environment `env'` on the machine `m'`. Each change is due to one of its nodes. -/
inductive Expr.Affects : Expr → Env → Machine → Env → Machine → Prop
  | refl (e : Expr) (env : Env) (m : Machine) : Affects e env m env m
  /-- An assignment adds a binding. -/
  | bind {e a : Expr} {x : String} {env env' : Env} {m m' : Machine}
      (h : Affects e env m env' m') (ha : assign x a ∈ e.parts) (v : Value)
      (hx : ∀ b, m'.arena.lookup env' x = some b → b.value.tag = v.tag) :
      Affects e env m (m'.arena.extend env' x v).1 (m'.extend env' x v)
  /-- A text is printed, or as much of it as fits. -/
  | write {e a : Expr} {env env' : Env} {m m' : Machine} (h : Affects e env m env' m')
      (ha : print a ∈ e.parts) (text : String) :
      Affects e env m env' ⟨m'.arena, (m'.sink.write text).2⟩
  /-- A loop gives up the environment that its condition led to. -/
  | drop {e c b : Expr} {env env₁ env₂ : Env} {m m₁ m₂ : Machine}
      (h : Affects e env m env₁ m₁) (hl : loop c b ∈ e.parts) (k : Affects c env₁ m₁ env₂ m₂) :
      Affects e env m env₁ m₂

namespace Expr.Affects

variable {e : Expr} {env env' : Env} {m m' : Machine}

theorem trans {env'' : Env} {m'' : Machine} (h : e.Affects env m env' m')
    (k : e.Affects env' m' env'' m'') : e.Affects env m env'' m'' := by
  induction k with
  | refl => exact h
  | bind _ ha v hx ih => exact (ih h).bind ha v hx
  | write _ ha text ih => exact (ih h).write ha text
  | drop _ hl k ih _ => exact (ih h).drop hl k

/-- What some nodes may do, all of them may. -/
theorem mono {f : Expr} (h : e.Affects env m env' m') (hf : e.parts ⊆ f.parts) :
    f.Affects env m env' m' := by
  induction h with
  | refl => exact .refl _ _ _
  | bind _ ha v hx ih => exact (ih hf).bind (hf ha) v hx
  | write _ ha text ih => exact (ih hf).write (hf ha) text
  | drop _ hl k ih _ => exact (ih hf).drop (hf hl) k

theorem evolves (h : e.Affects env m env' m') : Evolves env m env' m' := by
  induction h with
  | refl => exact .refl _ _
  | @bind _ _ x _ _ _ _ _ _ v hx ih => exact ih.bind x v hx
  | write _ _ text ih => exact ih.write text
  | drop _ _ _ ih₁ ih₂ => exact ih₁.drop ih₂

/-- Without assignments there are no bindings. -/
theorem arena_eq (h : e.Affects env m env' m') (he : ∀ x, ¬ e.Assigns x) :
    env' = env ∧ m'.arena = m.arena := by
  induction h with
  | refl => exact ⟨rfl, rfl⟩
  | bind _ ha _ _ _ => exact absurd ⟨_, ha⟩ (he _)
  | write _ _ _ ih => exact ih he
  | drop _ hl _ ih₁ ih₂ =>
    have hc := ih₂ fun x hx => he x (hx.mono (parts_of_loop hl).1)
    exact ⟨(ih₁ he).1, hc.2.trans (ih₁ he).2⟩

/-- Without printing there is no output. -/
theorem sink_eq (h : e.Affects env m env' m') (he : ¬ e.Prints) : m'.sink = m.sink := by
  induction h with
  | refl => rfl
  | bind _ _ _ _ ih => exact ih he
  | write _ ha _ _ => exact absurd ⟨_, ha⟩ he
  | drop _ hl _ ih₁ ih₂ =>
    exact (ih₂ fun hc => he (hc.mono (parts_of_loop hl).1)).trans (ih₁ he)

end Expr.Affects

/-! ## Actions of an expression -/

/-- However `x` ends, it has done from `env` what the nodes of `e` may do, and has come to the
environment `next a` when it ends with `a`. -/
structure Expr.Covers {α : Type} (e : Expr) (env : Env) (x : Action α) (next : α → Env) : Prop where
  ok : ∀ {m : Machine} {a : α} {m' : Machine},
    x m = some (.ok a, m') → e.Affects env m (next a) m'
  error : ∀ {m : Machine} {c : Cause} {m' : Machine},
    x m = some (.error c, m') → ∃ env', e.Affects env m env' m'

namespace Expr.Covers

variable {α β : Type} {e : Expr} {env : Env}

/-- The action leaves the environment as it is, whether or not it fails. -/
theorem of_stay {x : Action α} (h : ∀ {m r m'}, x m = some (r, m') → e.Affects env m env m') :
    e.Covers env x fun _ => env where
  ok := h
  error := fun hx => ⟨env, h hx⟩

theorem pure (a : α) (next : α → Env) (h : next a = env) :
    e.Covers env (Pure.pure a : Action α) next where
  ok := by
    intro m b m' hb
    cases hb
    exact h ▸ .refl _ _ _
  error := by
    intro m c m' hc
    cases hc

theorem ofExcept (r : Except Cause α) : e.Covers env (Attempt.ofExcept r) fun _ => env := by
  refine of_stay fun h => ?_
  cases h
  exact .refl _ _ _

theorem mono {f : Expr} {x : Action α} {next : α → Env} (h : f.Covers env x next)
    (hf : f.parts ⊆ e.parts) : e.Covers env x next where
  ok := fun hx => (h.ok hx).mono hf
  error := fun hx => (h.error hx).imp fun _ k => k.mono hf

theorem bind {x : Action α} {f : α → Action β} {next : α → Env} {last : β → Env}
    (hx : e.Covers env x next) (hf : ∀ a, e.Covers (next a) (f a) last) :
    e.Covers env (x >>= f) last where
  ok := by
    intro m b m' h
    obtain ⟨a, m₁, h₁, h₂⟩ := Attempt.bind_ok_iff.1 h
    exact (hx.ok h₁).trans ((hf a).ok h₂)
  error := by
    intro m c m' h
    rcases Attempt.bind_error_iff.1 h with h₁ | ⟨a, m₁, h₁, h₂⟩
    · exact hx.error h₁
    · exact ((hf a).error h₂).imp fun _ k => (hx.ok h₁).trans k

theorem writeLine {a : Expr} (ha : print a ∈ e.parts) (text : String) :
    e.Covers env (Action.writeLine text) fun _ => env := by
  refine of_stay fun {m r m'} h => ?_
  have hw := (Affects.refl e env m).write ha (text ++ "\n")
  rw [Action.writeLine_apply] at h
  split at h <;> next hk =>
    cases h
    simpa only [hk] using hw

theorem read (x : String) : e.Covers env (Action.read env x) Evaluation.env where
  ok := by
    intro m r m' h
    rw [Action.read_apply] at h
    split at h <;> cases h
    exact .refl _ _ _
  error := by
    intro m c m' h
    rw [Action.read_apply] at h
    split at h <;> cases h
    exact ⟨env, .refl _ _ _⟩

theorem assign {x : String} {a : Expr} (ha : Expr.assign x a ∈ e.parts) (r : Evaluation) :
    e.Covers r.env (Action.assign x r) Evaluation.env where
  ok := by
    intro m s m' h
    rw [Action.assign_apply] at h
    split at h
    · next hb =>
      cases h
      exact (Affects.refl e r.env m).bind ha r.value (by simp [hb])
    · next b hb =>
      split at h <;> cases h
      refine (Affects.refl e r.env m).bind ha r.value fun c hc => ?_
      rwa [← Option.some.inj (hb.symm.trans hc)]
  error := by
    intro m c m' h
    rw [Action.assign_apply] at h
    split at h
    · cases h
    · split at h <;> cases h
      exact ⟨r.env, .refl _ _ _⟩

/-- The condition that ends a loop is evaluated, and its environment is given up. -/
theorem repeatWhile {c b : Expr} (hl : loop c b ∈ e.parts)
    {condition body : Env → Action Evaluation}
    (hc : ∀ env, c.Covers env (condition env) Evaluation.env)
    (hb : ∀ env, b.Covers env (body env) Evaluation.env) (n : Nat) (last : Evaluation) :
    e.Covers last.env (repeatWhile condition body n last) Evaluation.env := by
  have hc' : ∀ env, e.Covers env (condition env) Evaluation.env := fun env =>
    (hc env).mono (parts_of_loop hl).1
  have hb' : ∀ env, e.Covers env (body env) Evaluation.env := fun env =>
    (hb env).mono (parts_of_loop hl).2
  induction n generalizing last with
  | zero => constructor <;> intro m r m' h <;> cases h
  | succ n ih =>
    have hr : ∀ checked : Evaluation, e.Covers checked.env
        (do let next ← body checked.env; ExprScript.repeatWhile condition body n next)
        Evaluation.env := fun checked => (hb' checked.env).bind ih
    constructor
    · intro m r m' h
      obtain ⟨checked, m₁, h₁, h⟩ := Attempt.bind_ok_iff.1 h
      obtain ⟨b, m₂, h₂, h⟩ := Attempt.bind_ok_iff.1 h
      obtain rfl := (Prod.mk.inj (Option.some.inj h₂)).2
      split at h
      · exact ((hc' _).ok h₁).trans ((hr checked).ok h)
      · cases h
        exact (Affects.refl e _ m).drop hl ((hc _).ok h₁)
    · intro m c m' h
      rcases Attempt.bind_error_iff.1 h with h₁ | ⟨checked, m₁, h₁, h⟩
      · exact (hc' _).error h₁
      rcases Attempt.bind_error_iff.1 h with h₂ | ⟨b, m₂, h₂, h⟩
      · obtain rfl := (Prod.mk.inj (Option.some.inj h₂)).2
        exact ⟨_, (hc' _).ok h₁⟩
      obtain rfl := (Prod.mk.inj (Option.some.inj h₂)).2
      split at h
      · exact ((hr checked).error h).imp fun _ k => ((hc' _).ok h₁).trans k
      · cases h

end Expr.Covers

namespace Expr

theorem operands_covered {rounds : Nat} {e l r : Expr} {env : Env}
    (hl : e.Covers env (l.eval rounds env) Evaluation.env)
    (hr : ∀ env, e.Covers env (r.eval rounds env) Evaluation.env)
    (f : Value → Value → Except Cause Value) :
    e.Covers env (do
      let left ← l.eval rounds env
      let right ← r.eval rounds left.env
      let value ← Attempt.ofExcept (f left.value right.value)
      return ⟨value, right.env⟩) Evaluation.env :=
  hl.bind fun left => (hr left.env).bind fun _ => (Covers.ofExcept _).bind fun _ =>
    Covers.pure _ _ rfl

mutual

/-- **Every evaluation does what its nodes may do.** -/
theorem eval_covered (rounds : Nat) (e : Expr) (env : Env) :
    e.Covers env (e.eval rounds env) Evaluation.env := by
  cases e with
  | literal v => exact Covers.pure _ _ rfl
  | var x => exact Covers.read x
  | assign x e =>
    refine ((eval_covered rounds e env).mono (List.subset_cons_self _ _)).bind fun r => ?_
    exact Covers.assign List.mem_cons_self r
  | arithmetic op l r | logical op l r | comparison op l r =>
    refine operands_covered ((eval_covered rounds l env).mono fun _ hp => ?_)
      (fun env => (eval_covered rounds r env).mono fun _ hp => ?_) op.apply <;> simp [parts, hp]
  | not e =>
    exact ((eval_covered rounds e env).mono (List.subset_cons_self _ _)).bind fun r =>
      (Covers.ofExcept _).bind fun _ => Covers.pure _ _ rfl
  | branch c y n =>
    refine ((eval_covered rounds c env).mono fun _ hp => ?_).bind fun checked =>
      (Covers.ofExcept _).bind fun b => ?_
    · simp [parts, hp]
    cases b
    · exact (eval_covered rounds n checked.env).mono fun _ hp => by simp [parts, hp]
    · exact (eval_covered rounds y checked.env).mono fun _ hp => by simp [parts, hp]
  | loop c b =>
    exact Covers.repeatWhile List.mem_cons_self (eval_covered rounds c) (eval_covered rounds b)
      rounds (.unit env)
  | sequence es | program es =>
    exact evalAll_covered rounds es (List.subset_cons_self _ _) (.unit env)
  | print e =>
    exact ((eval_covered rounds e env).mono (List.subset_cons_self _ _)).bind fun r =>
      (Covers.writeLine List.mem_cons_self _).bind fun _ => Covers.pure _ _ rfl

theorem evalAll_covered (rounds : Nat) {e : Expr} (es : List Expr) (he : partsAll es ⊆ e.parts)
    (last : Evaluation) : e.Covers last.env (evalAll rounds es last) Evaluation.env := by
  cases es with
  | nil => exact Covers.pure _ _ rfl
  | cons d es =>
    refine ((eval_covered rounds d last.env).mono fun _ hp => he ?_).bind fun r => ?_
    · exact List.mem_append_left _ hp
    · exact evalAll_covered rounds es (fun _ hp => he (List.mem_append_right _ hp)) r

end

end Expr

/-- However `x` ends, the machine has evolved from `env`, and to the environment `next a` when it
ends with `a`. -/
structure Tracks {α : Type} (env : Env) (x : Action α) (next : α → Env) : Prop where
  ok : ∀ {m : Machine} {a : α} {m' : Machine}, x m = some (.ok a, m') → Evolves env m (next a) m'
  error : ∀ {m : Machine} {c : Cause} {m' : Machine},
    x m = some (.error c, m') → Evolves env m env m'

/-- **Every evaluation evolves its machine.** -/
theorem Expr.eval_tracks (rounds : Nat) (e : Expr) (env : Env) :
    Tracks env (e.eval rounds env) Evaluation.env where
  ok := fun h => ((e.eval_covered rounds env).ok h).evolves
  error := fun h => by
    obtain ⟨env', k⟩ := (e.eval_covered rounds env).error h
    exact k.evolves.back

/-! ## What evolution preserves -/

/-- The records of the machine point to earlier ones, and `env` is one of its environments. -/
structure Machine.Sound (m : Machine) (env : Env) : Prop where
  descends : m.arena.Descends
  holds : m.arena.Holds env

namespace Evolves

variable {env env' : Env} {m m' : Machine}

theorem growsTo (h : Evolves env m env' m') : m.arena.GrowsTo m'.arena := by
  induction h with
  | refl => exact .refl _
  | bind _ x v _ ih => exact ih.trans (Arena.growsTo_extend _ _ x v)
  | write _ _ ih => exact ih
  | drop _ _ ih₁ ih₂ => exact ih₁.trans ih₂

theorem sound (h : Evolves env m env' m') (hm : m.Sound env) : m'.Sound env' := by
  induction h with
  | refl => exact hm
  | bind _ x v _ ih =>
    have ih := ih hm
    exact ⟨Arena.descends_extend x v ih.descends ih.holds, Arena.holds_extend _ _ x v⟩
  | write _ _ ih => exact ⟨(ih hm).descends, (ih hm).holds⟩
  | drop _ k ih₁ ih₂ => exact ⟨(ih₂ (ih₁ hm)).descends, k.growsTo.holds (ih₁ hm).holds⟩

theorem chain_eq (h : Evolves env m env' m') (hm : m.Sound env) :
    m'.arena.chain env = m.arena.chain env :=
  h.growsTo.chain_eq hm.descends hm.holds

/-- **The environment grows,** by bindings in front of it. -/
theorem suffix (h : Evolves env m env' m') (hm : m.Sound env) :
    m.arena.chain env <:+ m'.arena.chain env' := by
  induction h with
  | refl => exact List.suffix_rfl
  | bind h x v _ ih =>
    have hs := h.sound hm
    rw [Machine.extend_arena, Arena.chain_extend x v hs.descends hs.holds]
    exact (ih hm).trans (List.suffix_cons _ _)
  | write _ _ ih => exact ih hm
  | drop h k ih _ => exact k.chain_eq (h.sound hm) ▸ ih hm

end Evolves

end ExprScript
