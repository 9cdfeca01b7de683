import ExprScript.Arena
import ExprScript.Attempt
import ExprScript.Expr
import ExprScript.Operator.Meaning
import ExprScript.Sink

/-!
# Evaluation

An expression is evaluated in an environment and gives a value and the environment to go on in.
Parts are evaluated from left to right, each in the environment that the part before it gave. A
binding made in a part is seen by all that follows: braces open no scope.

Only loops can go on for ever. The number of rounds that a loop may run is a parameter, and a loop
that would run more gives no answer at all.

* `Machine`: what an evaluation changes, the arena and the sink.
* `Action`: an attempt that changes a machine.
* `repeatWhile`: a loop.
* `Expr.eval`: evaluation, by recursion on the expression.
* `Expr.evalAll_append`: items in two parts.
-/

namespace ExprScript

/-- The state of an evaluation. -/
structure Machine where
  arena : Arena
  sink : Sink
  deriving DecidableEq

/-- The machine without bindings. -/
def Machine.fresh (sink : Sink) : Machine := ⟨.empty, sink⟩

/-- A value and the environment to go on in. -/
structure Evaluation where
  value : Value
  env : Env
  deriving DecidableEq

/-- The unit value in an environment. -/
def Evaluation.unit (env : Env) : Evaluation := ⟨.unit, env⟩

/-- An attempt that changes a machine. -/
abbrev Action := Attempt Machine Cause

namespace Action

/-- Change the sink, and fail if it does. -/
def onSink (change : Sink → Except String Unit × Sink) : Action Unit := fun ⟨arena, sink⟩ =>
  match change sink with
  | (.ok (), sink) => some (.ok (), ⟨arena, sink⟩)
  | (.error message, sink) => some (.error (.outputFailed message), ⟨arena, sink⟩)

/-- Write a text to the sink. -/
def write (text : String) : Action Unit := onSink (Sink.write · text)

/-- Flush the sink. -/
def flush : Action Unit := onSink Sink.flush

/-- Write a line to the sink. -/
def writeLine (text : String) : Action Unit := write (text ++ "\n")

/-- The value of a variable. -/
def read (env : Env) (x : String) : Action Evaluation := do
  match (← Attempt.state).arena.lookup env x with
  | some b => return ⟨b.value, env⟩
  | none => Attempt.fail (.undeclared x)

/-- Add a binding of `x` to the value of an evaluation, in its environment. -/
def extend (x : String) (r : Evaluation) : Action Evaluation := fun ⟨arena, sink⟩ =>
  let (env, arena) := arena.extend r.env x r.value
  some (.ok ⟨r.value, env⟩, ⟨arena, sink⟩)

/-- Bind `x` to the value of an evaluation, in its environment. A name keeps the tag it was first
bound with. -/
def assign (x : String) (r : Evaluation) : Action Evaluation := do
  match (← Attempt.state).arena.lookup r.env x with
  | none => extend x r
  | some b =>
    if b.value.tag = r.value.tag then extend x r
    else Attempt.fail (.assignmentMismatch x b.value.tag r.value.tag)

end Action

/-- The truth value of a condition. -/
def Construct.decide (construct : Construct) : Value → Except Cause Bool
  | .boolean b => .ok b
  | v => .error (.conditionMismatch construct v.tag)

theorem Construct.decide_eq (construct : Construct) (v : Value) :
    (∃ b, v = .boolean b ∧ construct.decide v = .ok b) ∨
      v.tag ≠ .boolean ∧ construct.decide v = .error (.conditionMismatch construct v.tag) := by
  cases v with
  | boolean b => exact .inl ⟨b, rfl, rfl⟩
  | _ => exact .inr ⟨by simp [Value.tag], rfl⟩

theorem Construct.decide_of_tag {construct : Construct} {v : Value} (h : v.tag ≠ .boolean) :
    construct.decide v = .error (.conditionMismatch construct v.tag) := by
  rcases construct.decide_eq v with ⟨b, rfl, -⟩ | ⟨-, hd⟩
  · exact absurd rfl h
  · exact hd

/-- Evaluate the body as long as the condition holds, at most `n` times, and give what the last
round gave. The environment of the condition that ends the loop is dropped. -/
def repeatWhile (condition body : Env → Action Evaluation) : Nat → Evaluation → Action Evaluation
  | 0, _ => Attempt.spent
  | n + 1, last => do
    let checked ← condition last.env
    if ← Attempt.ofExcept (Construct.loop.decide checked.value) then
      let next ← body checked.env
      repeatWhile condition body n next
    else return last

namespace Expr

mutual

/-- Evaluate an expression. A loop in it may run fewer rounds than `rounds`. -/
def eval (rounds : Nat) : Expr → Env → Action Evaluation
  | literal v, env => return ⟨v, env⟩
  | var x, env => Action.read env x
  | assign x e, env => do
    let r ← e.eval rounds env
    Action.assign x r
  | arithmetic op l r, env => do
    let left ← l.eval rounds env
    let right ← r.eval rounds left.env
    let value ← Attempt.ofExcept (op.apply left.value right.value)
    return ⟨value, right.env⟩
  | logical op l r, env => do
    let left ← l.eval rounds env
    let right ← r.eval rounds left.env
    let value ← Attempt.ofExcept (op.apply left.value right.value)
    return ⟨value, right.env⟩
  | comparison op l r, env => do
    let left ← l.eval rounds env
    let right ← r.eval rounds left.env
    let value ← Attempt.ofExcept (op.apply left.value right.value)
    return ⟨value, right.env⟩
  | not e, env => do
    let r ← e.eval rounds env
    let value ← Attempt.ofExcept r.value.negate
    return ⟨value, r.env⟩
  | branch c y n, env => do
    let checked ← c.eval rounds env
    if ← Attempt.ofExcept (Construct.branch.decide checked.value) then y.eval rounds checked.env
    else n.eval rounds checked.env
  | loop c b, env => repeatWhile (c.eval rounds) (b.eval rounds) rounds (.unit env)
  | sequence es, env => evalAll rounds es (.unit env)
  | program es, env => evalAll rounds es (.unit env)
  | print e, env => do
    let r ← e.eval rounds env
    Action.writeLine r.value.text
    return r

/-- Evaluate the items one after the other, and give what the last one gave. -/
def evalAll (rounds : Nat) : List Expr → Evaluation → Action Evaluation
  | [], last => return last
  | e :: es, last => do
    let r ← e.eval rounds last.env
    evalAll rounds es r

end

theorem evalAll_append (rounds : Nat) (xs ys : List Expr) (last : Evaluation) :
    evalAll rounds (xs ++ ys) last = evalAll rounds xs last >>= evalAll rounds ys := by
  induction xs generalizing last with
  | nil => rfl
  | cons x xs ih =>
    simp only [List.cons_append, evalAll, bind_assoc]
    congr 1
    funext r
    exact ih r

/-- Only the value of the last item is kept, so the items may start afresh. -/
theorem evalAll_of_ne_nil (rounds : Nat) {ys : List Expr} (hys : ys ≠ []) (last : Evaluation) :
    evalAll rounds ys last = (program ys).eval rounds last.env := by
  cases ys with
  | nil => exact absurd rfl hys
  | cons y ys => rfl

end Expr

end ExprScript
