import ExprScript.Proofs.Operation
import ExprScript.Proofs.Returns

/-!
# Blocks have no scope

A block is no more than its items one after the other. Whether they are called a program or a
sequence makes no difference, nor where the braces stand: the items of a block may as well stand in
the block around it. Only an empty block at the end of another is not nothing, for it gives the unit
value where the item before it gave another.

* `Layer`: a node with one of its parts left out; **`Layer.equivalent`**: parts with the same
  meaning may replace each other there.
* `Expr.Regroups`: one change of the grouping, at any depth.
* `Expr.evalAll_splice`: items with and without the braces around them.
* `Expr.eval_concat_empty`: an empty block at the end.
* **`Expr.eval_regrouped`**: an expression evaluates as it does with any other grouping.
-/

namespace ExprScript

/-! ## Replacing a part -/

/-- The two expressions evaluate alike, from every environment of every machine. -/
def Expr.Equivalent (e f : Expr) : Prop := ∀ rounds, e.eval rounds = f.eval rounds

/-- A node with one of its parts left out. -/
inductive Layer where
  | assign (name : String)
  | left (op : Operator) (right : Expr)
  | right (op : Operator) (left : Expr)
  | not
  | condition (yes no : Expr)
  | yes (condition no : Expr)
  | no (condition yes : Expr)
  | loopCondition (body : Expr)
  | loopBody (condition : Expr)
  | sequence (before after : List Expr)
  | program (before after : List Expr)
  | print

namespace Layer

/-- The node, with `e` for the part that is left out. -/
def around : Layer → Expr → Expr
  | assign x, e => .assign x e
  | left op r, e => .binary op e r
  | right op l, e => .binary op l e
  | not, e => .not e
  | condition y n, e => .branch e y n
  | yes c n, e => .branch c e n
  | no c y, e => .branch c y e
  | loopCondition b, e => .loop e b
  | loopBody c, e => .loop c e
  | sequence before after, e => .sequence (before ++ e :: after)
  | program before after, e => .program (before ++ e :: after)
  | print, e => .print e

/-- **Parts with the same meaning may replace each other.** -/
theorem equivalent (layer : Layer) {e f : Expr} (h : e.Equivalent f) :
    (layer.around e).Equivalent (layer.around f) := by
  intro rounds
  funext env
  cases layer with
  | left op r | right op l => simp only [around, Expr.eval_binary, h rounds]
  | sequence before after | program before after =>
    simp only [around, Expr.eval, Expr.evalAll_append, Expr.evalAll, h rounds]
  | _ => simp only [around, Expr.eval, h rounds]

end Layer

namespace Expr

/-! ## Regrouping -/

/-- Somewhere inside the first expression a program is made a sequence or a sequence a program, or
the braces around a sequence among other items are left out. Those of an empty sequence may be left
out only where other items follow. -/
inductive Regroups : Expr → Expr → Prop
  | toSequence (es : List Expr) : Regroups (program es) (sequence es)
  | toProgram (es : List Expr) : Regroups (sequence es) (program es)
  | spliceSequence (before : List Expr) {items after : List Expr} (h : items ≠ [] ∨ after ≠ []) :
      Regroups (sequence (before ++ sequence items :: after))
        (sequence (before ++ (items ++ after)))
  | spliceProgram (before : List Expr) {items after : List Expr} (h : items ≠ [] ∨ after ≠ []) :
      Regroups (program (before ++ sequence items :: after))
        (program (before ++ (items ++ after)))
  | inside (layer : Layer) {e f : Expr} (h : Regroups e f) :
      Regroups (layer.around e) (layer.around f)

theorem evalAll_splice (rounds : Nat) (before : List Expr) {items after : List Expr}
    (h : items ≠ [] ∨ after ≠ []) (last : Evaluation) :
    evalAll rounds (before ++ sequence items :: after) last =
      evalAll rounds (before ++ (items ++ after)) last := by
  rw [evalAll_append, evalAll_append]
  congr 1
  funext r
  rw [evalAll_append]
  by_cases hitems : items = []
  · -- an empty sequence gives the unit value, which the item after it replaces
    subst hitems
    have hafter : after ≠ [] := h.resolve_left fun hne => hne rfl
    calc evalAll rounds (sequence [] :: after) r
        = evalAll rounds after (.unit r.env) := rfl
      _ = (program after).eval rounds r.env := evalAll_of_ne_nil rounds hafter (.unit r.env)
      _ = evalAll rounds after r := (evalAll_of_ne_nil rounds hafter r).symm
  · rw [evalAll_of_ne_nil rounds hitems r]
    rfl

theorem eval_concat_empty (rounds : Nat) (items : List Expr) (env : Env) :
    (sequence (items ++ [sequence []])).eval rounds env = (do
      let r ← (sequence items).eval rounds env
      return .unit r.env) := by
  rw [eval, evalAll_append]
  rfl

theorem Regroups.equivalent {e f : Expr} (h : Regroups e f) : e.Equivalent f := by
  induction h with
  | toSequence es | toProgram es =>
    intro rounds
    rfl
  | spliceSequence before h | spliceProgram before h =>
    intro rounds
    funext env
    exact evalAll_splice rounds before h (.unit env)
  | inside layer _ ih => exact layer.equivalent ih

/-- **Grouping has no meaning:** a regrouped expression returns the same, with the same arena and
output. -/
theorem eval_regrouped {e f : Expr} (h : Relation.ReflTransGen Regroups e f) (env : Env)
    (m : Machine) :
    (∀ rounds, f.eval rounds env m = e.eval rounds env m) ∧
      ∀ r m', f.Returns env m r m' ↔ e.Returns env m r m' := by
  have heq : e.Equivalent f := by
    induction h with
    | refl => exact fun _ => rfl
    | tail _ hstep ih => exact fun rounds => (ih rounds).trans (hstep.equivalent rounds)
  have hsame : ∀ rounds, f.eval rounds env m = e.eval rounds env m := fun rounds => by
    rw [heq rounds]
  exact ⟨hsame, fun r m' => exists_congr fun rounds => by rw [hsame rounds]⟩

theorem eval_regrouped_counting :
    let one := literal (.integer 1)
    let less := comparison .less (var "n") (literal (.integer 2))
    let next := assign "n" (arithmetic .add (var "n") one)
    let e := program [assign "n" one,
      loop (program [sequence [], less]) (sequence [sequence [next, print (var "n")]])]
    let f := program [assign "n" one, loop (sequence [less]) (sequence [next, print (var "n")])]
    let m := Machine.fresh .unlimited
    let a : Arena := ⟨#[⟨"n", .integer 1, none⟩, ⟨"n", .integer 2, some 0⟩]⟩
    let m' : Machine := ⟨a, ⟨"2\n".toUTF8, none, false, ""⟩⟩
    Relation.ReflTransGen Regroups e f ∧ f.Returns none m (.ok ⟨.integer 2, some 1⟩) m' ∧
      e.Returns none m (.ok ⟨.integer 2, some 1⟩) m' := by
  intro one less next e f m a m'
  have hbody : Regroups (sequence [sequence [next, print (var "n")]])
      (sequence [next, print (var "n")]) :=
    .spliceSequence [] (.inl (by simp))
  have hcondition :
      Relation.ReflTransGen Regroups (program [sequence [], less]) (sequence [less]) :=
    .tail (.single (.toSequence _)) (.spliceSequence [] (.inr (by simp)))
  have hinside (layer : Layer) {c d : Expr} (h : Relation.ReflTransGen Regroups c d) :
      Relation.ReflTransGen Regroups (layer.around c) (layer.around d) :=
    h.lift layer.around fun _ _ => .inside layer
  have hloop := (hinside (.loopCondition _) hcondition).tail (.inside (.loopBody _) hbody)
  have h : Relation.ReflTransGen Regroups e f := hinside (.program [assign "n" one] []) hloop
  have hf : f.Returns none m (.ok ⟨.integer 2, some 1⟩) m' := ⟨2, rfl⟩
  exact ⟨h, hf, ((eval_regrouped h none m).2 _ _).1 hf⟩

end Expr

end ExprScript
