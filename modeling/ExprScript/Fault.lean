import ExprScript.Operator
import ExprScript.Position
import ExprScript.Text.Quoted
import ExprScript.Value

/-!
# Faults

A `Cause` says what went wrong, with the data of the case; a `Fault` adds the place in the source
when there is one. The wording is in three functions of the cause.

* `Cause.category`: the class of a cause, by which callers decide.
* `Cause.name`, `Cause.message`, `Cause.tip`: the words.
-/

namespace ExprScript

/-- The construct whose condition was evaluated. -/
inductive Construct where
  | branch
  | loop
  deriving DecidableEq, Repr

/-- The word that opens the construct. -/
def Construct.word : Construct → String
  | .branch => "if"
  | .loop => "while"

/-- What went wrong. -/
inductive Cause where
  /-- No token starts with this character. -/
  | unrecognised (token : String)
  /-- This token cannot stand here. -/
  | unexpected (token : String)
  /-- This token cannot stand here, and it is known what should. -/
  | unexpectedFor (token message : String)
  /-- The token denotes no number of the language. -/
  | badNumber (token : String)
  /-- Only a variable can be assigned. -/
  | badTarget (target : String)
  /-- The variable has no binding. -/
  | undeclared (target : String)
  /-- A variable keeps the tag of its first value. -/
  | assignmentMismatch (target : String) (expected received : Tag)
  | arithmeticMismatch (op : Arithmetic) (left right : Tag)
  /-- Both operands have this tag, for which the operator has no meaning. -/
  | arithmeticUnsupported (op : Arithmetic) (received : Tag)
  | logicalMismatch (op : Logical) (left right : Tag)
  | notMismatch (received : Tag)
  | comparisonMismatch (op : Comparison) (left right : Tag)
  | conditionMismatch (construct : Construct) (received : Tag)
  | divideByZero (dividend : String)
  /-- The sink refused what was written. -/
  | outputFailed (message : String)
  deriving DecidableEq, Repr

/-- The class of a cause. -/
inductive Category where
  | malformed
  | unboundName
  | typeMismatch
  | divideByZero
  | output
  deriving DecidableEq, Repr

/-- The name of a category. -/
def Category.name : Category → String
  | .malformed => "Syntax"
  | .unboundName => "UnboundName"
  | .typeMismatch => "TypeMismatch"
  | .divideByZero => "DivideByZero"
  | .output => "Output"

namespace Cause

/-- The class of a cause. -/
def category : Cause → Category
  | unrecognised _ | unexpected _ | unexpectedFor .. | badNumber _ | badTarget _ => .malformed
  | undeclared _ => .unboundName
  | assignmentMismatch .. | arithmeticMismatch .. | arithmeticUnsupported .. | logicalMismatch ..
  | notMismatch _ | comparisonMismatch .. | conditionMismatch .. => .typeMismatch
  | divideByZero _ => .divideByZero
  | outputFailed _ => .output

/-- The name of a cause. -/
def name : Cause → String
  | unrecognised _ => "UnrecognisedToken"
  | unexpected _ => "UnexpectedToken"
  | unexpectedFor .. => "UnexpectedTokenDetailed"
  | badNumber _ => "NumberParseError"
  | badTarget _ => "InvalidAssignmentTarget"
  | undeclared _ => "VariableNotDeclared"
  | assignmentMismatch .. => "AssignmentTypeMatchError"
  | arithmeticMismatch .. => "ArithmeticTypeMatchError"
  | arithmeticUnsupported .. => "UnsupportedArithmeticType"
  | logicalMismatch .. => "LogicalTypeMatchError"
  | notMismatch _ => "NotExpectsBoolean"
  | comparisonMismatch .. => "ComparisonTypeMatchError"
  | conditionMismatch .. => "ConditionExpectsBoolean"
  | divideByZero _ => "DivideByZero"
  | outputFailed _ => "OutputError"

/-- What went wrong, in one line. Texts of the source stand in quotes. -/
def message : Cause → String
  | unrecognised token => "unrecognised token: " ++ Text.quoted token
  | unexpected token => "unexpected token: " ++ Text.quoted token
  | unexpectedFor token detail =>
    "unexpected token (" ++ Text.quoted detail ++ "): " ++ Text.quoted token
  | badNumber token => "error parsing number: " ++ Text.quoted token
  | badTarget target => "invalid assignment target: " ++ target
  | undeclared target => "variable " ++ Text.quoted target ++ " not declared"
  | assignmentMismatch target expected received =>
    "cannot assign " ++ received.name ++ " to " ++ Text.quoted target ++ " of type "
      ++ expected.name
  | arithmeticMismatch op left right =>
    "mismatched types for " ++ op.name ++ ": " ++ left.name ++ " and " ++ right.name
  | arithmeticUnsupported op received =>
    "cannot apply " ++ op.name ++ " to " ++ received.name ++ " operands"
  | logicalMismatch op left right =>
    op.name ++ " expects boolean operands: received " ++ left.name ++ " and " ++ right.name
  | notMismatch received => "Not expects a boolean operand: received " ++ received.name
  | comparisonMismatch op left right =>
    "mismatched types for " ++ op.name ++ ": " ++ left.name ++ " and " ++ right.name
  | conditionMismatch construct received =>
    construct.word ++ " condition must be boolean: received " ++ received.name
  | divideByZero dividend => "cannot divide " ++ dividend ++ " by zero"
  | outputFailed detail => "failed to write output: " ++ detail

/-- Advice for the author of the source, for every cause but a stray character. -/
def tip : Cause → Option String
  | unrecognised _ => none
  | unexpected token =>
    some ("Unexpected token: `" ++ token ++ "`, did you miss a semicolon?")
  | unexpectedFor token detail => some ("Unexpected token: `" ++ token ++ "`, " ++ detail)
  | badNumber token =>
    some ("Invalid number: `" ++ token ++ "`, is it above the integer limit?")
  | badTarget target =>
    some ("Cannot assign to `" ++ target ++ "`, only variables can be assigned")
  | undeclared target => some ("Cannot read from `" ++ target ++ "` before assignment")
  | assignmentMismatch target expected received =>
    some ("`" ++ target ++ "` holds a `" ++ expected.name ++ "`, cannot assign a `"
      ++ received.name ++ "` to it")
  | arithmeticMismatch op left right =>
    some ("Mismatched types for " ++ op.name ++ ": cannot combine `" ++ left.name ++ "` with `"
      ++ right.name ++ "`")
  | arithmeticUnsupported op received =>
    some (op.name ++ " is not defined for `" ++ received.name ++ "` operands")
  | logicalMismatch op left right =>
    some (op.name ++ " expects `Boolean` operands, received `" ++ left.name ++ "` and `"
      ++ right.name ++ "`")
  | notMismatch received =>
    some ("Not expects a `Boolean` operand, received `" ++ received.name ++ "`")
  | comparisonMismatch op left right =>
    some ("Mismatched types for " ++ op.name ++ ": cannot compare `" ++ left.name ++ "` with `"
      ++ right.name ++ "`")
  | conditionMismatch construct received =>
    some ("Expected `Boolean` for " ++ construct.word ++ " condition, received `"
      ++ received.name ++ "`")
  | divideByZero dividend => some ("Cannot divide " ++ dividend ++ " by zero")
  | outputFailed detail => some ("Failed to write output: " ++ detail)

theorem tip_eq_none_iff (c : Cause) : c.tip = none ↔ ∃ token, c = unrecognised token := by
  cases c <;> simp [tip]

end Cause

/-- A cause and the place in the source it arose at, if it has one. -/
structure Fault where
  cause : Cause
  position : Option Position
  deriving DecidableEq, Repr

/-- The fault at a place of the source. -/
def Fault.located (cause : Cause) (position : Position) : Fault := ⟨cause, some position⟩

/-- The fault of an evaluation, which has no place. -/
def Fault.unlocated (cause : Cause) : Fault := ⟨cause, none⟩

end ExprScript
