/-!
# Operators

The three families of binary operators and their names in messages and trees.
-/

namespace ExprScript

/-- Operators on two values of one tag, giving a value of that tag. -/
inductive Arithmetic where
  | add
  | subtract
  | multiply
  | divide
  deriving DecidableEq, Repr

/-- Operators on two truth values. -/
inductive Logical where
  | and
  | or
  deriving DecidableEq, Repr

/-- Operators that compare two values of one tag. -/
inductive Comparison where
  | less
  | lessEq
  | greater
  | greaterEq
  | equal
  | notEqual
  deriving DecidableEq, Repr

/-- The name of an arithmetic operator. -/
def Arithmetic.name : Arithmetic → String
  | .add => "Add"
  | .subtract => "Subtract"
  | .multiply => "Multiply"
  | .divide => "Divide"

/-- The name of a logical operator. -/
def Logical.name : Logical → String
  | .and => "And"
  | .or => "Or"

/-- The name of a comparison. -/
def Comparison.name : Comparison → String
  | .less => "Lt"
  | .lessEq => "Lte"
  | .greater => "Gt"
  | .greaterEq => "Gte"
  | .equal => "Eq"
  | .notEqual => "Ne"

end ExprScript
