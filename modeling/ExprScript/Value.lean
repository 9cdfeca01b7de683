import ExprScript.Number.Layout

/-!
# Values

A value is a scalar that knows its tag. There is no conversion between tags.

* `Tag`: the five kinds of value, with their names.
* `Value.tag`, `Value.text`, `Value.isZero`: what is asked of a value.
* `Value.equals`: equality as the language sees it, under which floating-point zeros are equal
  whatever their sign and not-a-number differs from itself.
-/

namespace ExprScript

/-- The kind of a value. -/
inductive Tag where
  | unit
  | integer
  | float
  | string
  | boolean
  deriving DecidableEq, Repr

/-- The name of a tag in messages. -/
def Tag.name : Tag → String
  | .unit => "Unit"
  | .integer => "Integer"
  | .float => "FloatingPoint"
  | .string => "String"
  | .boolean => "Boolean"

/-- A scalar of the language. Integers have 64 bits and wrap. -/
inductive Value where
  | unit
  | integer (i : Int64)
  | float (x : Float)
  | string (s : String)
  | boolean (b : Bool)
  deriving DecidableEq

namespace Value

/-- The tag of a value. -/
def tag : Value → Tag
  | unit => .unit
  | integer _ => .integer
  | float _ => .float
  | string _ => .string
  | boolean _ => .boolean

/-- The name of a truth value. -/
def booleanText (b : Bool) : String := if b then "true" else "false"

/-- The text of a value as it is printed. A string stands as it is, without quotes. -/
def text : Value → String
  | unit => "Unit"
  | integer i => Number.integerText i.toInt
  | float x => Number.floatText x
  | string s => s
  | boolean b => booleanText b

/-- Zero of its tag: the integer, both floating-point zeros, and `false`. The other tags have no
zero. -/
def isZero : Value → Bool
  | integer i => i = 0
  | float x => x == Float.ofBits 0
  | boolean b => !b
  | unit => false
  | string _ => false

/-- Equality of values of one tag, on floating-point numbers that of the arithmetic. -/
def equals : Value → Value → Bool
  | unit, unit => true
  | integer i, integer j => i = j
  | float x, float y => x == y
  | string s, string t => s = t
  | boolean b, boolean c => b = c
  | _, _ => false

theorem tag_eq_of_equals {v w : Value} (h : v.equals w = true) : v.tag = w.tag := by
  cases v <;> cases w <;> simp_all [equals, tag]

end Value

end ExprScript
