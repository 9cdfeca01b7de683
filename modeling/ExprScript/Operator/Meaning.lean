import ExprScript.Fault

/-!
# What operators do

Arithmetic operators and comparisons first look at the tags of their operands, which must be equal.
Division then looks at the divisor, which must not be zero; only after that is a tag refused that an
arithmetic operator does not support. Logical operators take truth values. Integer arithmetic wraps.

* `floorDiv`: the quotient of integers, rounded down.
* `Arithmetic.apply`, `Logical.apply`, `Comparison.apply`, `Value.negate`: the operators.
* `Value.order`: how two values of one tag compare; not-a-number compares with nothing.
-/

namespace ExprScript

/-- The quotient rounded down, for a divisor other than zero: the quotient rounded towards zero,
lowered by one when something is left over and the signs differ. -/
def floorDiv (a b : Int64) : Int64 :=
  let quotient := a / b
  if a % b ≠ 0 ∧ (a < 0 ↔ ¬ b < 0) then quotient - 1 else quotient

namespace Arithmetic

/-- The operator on operands of one tag, with a divisor other than zero. -/
def compute (op : Arithmetic) (left right : Value) : Except Cause Value :=
  match op, left, right with
  | add, .integer a, .integer b => .ok (.integer (a + b))
  | add, .float x, .float y => .ok (.float (x + y))
  | add, .string s, .string t => .ok (.string (s ++ t))
  | subtract, .integer a, .integer b => .ok (.integer (a - b))
  | subtract, .float x, .float y => .ok (.float (x - y))
  | multiply, .integer a, .integer b => .ok (.integer (a * b))
  | multiply, .float x, .float y => .ok (.float (x * y))
  | divide, .integer a, .integer b => .ok (.integer (floorDiv a b))
  | divide, .float x, .float y => .ok (.float (x / y))
  | op, left, _ => .error (.arithmeticUnsupported op left.tag)

/-- The value of an arithmetic operation. A zero divisor is noticed before a tag that cannot be
divided, so `true / false` divides by zero. -/
def apply (op : Arithmetic) (left right : Value) : Except Cause Value :=
  if left.tag ≠ right.tag then .error (.arithmeticMismatch op left.tag right.tag)
  else if op = divide ∧ right.isZero then .error (.divideByZero left.text)
  else compute op left right

end Arithmetic

/-- The truth value of a logical operation. -/
def Logical.holds : Logical → Bool → Bool → Bool
  | .and, a, b => a && b
  | .or, a, b => a || b

/-- The value of a logical operation, both operands of which are known. -/
def Logical.apply (op : Logical) (left right : Value) : Except Cause Value :=
  match left, right with
  | .boolean a, .boolean b => .ok (.boolean (op.holds a b))
  | left, right => .error (.logicalMismatch op left.tag right.tag)

namespace Value

/-- The negation of a truth value. -/
def negate : Value → Except Cause Value
  | boolean b => .ok (boolean !b)
  | v => .error (.notMismatch v.tag)

/-- How two values of one tag compare. Strings compare by code points, which is the order of their
bytes; `none` when one is not-a-number, or when the tags differ. -/
def order : Value → Value → Option Ordering
  | unit, unit => some .eq
  | integer i, integer j => some (compare i j)
  | float x, float y => x.toModel.compare y.toModel
  | string s, string t => some (compare s t)
  | boolean b, boolean c => some (compare b c)
  | _, _ => none

end Value

/-- Whether a comparison holds of two values that compare in this way. -/
def Comparison.holds : Comparison → Option Ordering → Bool
  | .less, o => o = some .lt
  | .lessEq, o => o = some .lt || o = some .eq
  | .greater, o => o = some .gt
  | .greaterEq, o => o = some .gt || o = some .eq
  | .equal, o => o = some .eq
  | .notEqual, o => o ≠ some .eq

/-- The value of a comparison. -/
def Comparison.apply (op : Comparison) (left right : Value) : Except Cause Value :=
  if left.tag ≠ right.tag then .error (.comparisonMismatch op left.tag right.tag)
  else .ok (.boolean (op.holds (left.order right)))

end ExprScript
