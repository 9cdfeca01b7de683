import ExprScript.Operator
import ExprScript.Value

/-!
# Expressions

A program is a tree of expressions, and every expression has a value.

* `Expr.equals`: equality of trees, with `Value.equals` at the literals.
-/

namespace ExprScript

/-- A node of a program. -/
inductive Expr where
  | literal (value : Value)
  | var (name : String)
  | assign (name : String) (value : Expr)
  | arithmetic (op : Arithmetic) (left right : Expr)
  | logical (op : Logical) (left right : Expr)
  | not (operand : Expr)
  | comparison (op : Comparison) (left right : Expr)
  | branch (condition yes no : Expr)
  | loop (condition body : Expr)
  | sequence (items : List Expr)
  /-- The root of a program; its meaning is that of a sequence. -/
  | program (items : List Expr)
  | print (operand : Expr)

namespace Expr

/-- The literal `()`. -/
def unit : Expr := literal .unit

mutual

/-- Equality of trees. -/
def equals : Expr → Expr → Bool
  | literal v, literal w => v.equals w
  | var x, var y => x = y
  | assign x a, assign y b => x = y && a.equals b
  | arithmetic o a b, arithmetic p c d => o = p && a.equals c && b.equals d
  | logical o a b, logical p c d => o = p && a.equals c && b.equals d
  | not a, not b => a.equals b
  | comparison o a b, comparison p c d => o = p && a.equals c && b.equals d
  | branch a b c, branch d e f => a.equals d && b.equals e && c.equals f
  | loop a b, loop c d => a.equals c && b.equals d
  | sequence as, sequence bs => equalsAll as bs
  | program as, program bs => equalsAll as bs
  | print a, print b => a.equals b
  | _, _ => false

/-- Equality of lists of trees, item by item. -/
def equalsAll : List Expr → List Expr → Bool
  | [], [] => true
  | a :: as, b :: bs => a.equals b && equalsAll as bs
  | _, _ => false

end

end Expr

end ExprScript
