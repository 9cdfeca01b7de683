import ExprScript.Number.Binary64
import ExprScript.Number.Shortest

/-!
# Written numbers

A decimal is written plainly, with at least one digit on each side of the point, or with an
exponent. A `Layout` says which: it is a value, and the text of a number is a function of it.

* `Layout.write`: the text of a decimal.
* `floatText`: the text of a floating-point number.
* `integerText`: the text of an integer.
-/

namespace ExprScript.Number

/-- Decimals whose leading digit stands for `10 ^ e` are written plainly when
`plainFrom ≤ e < plainBelow`. -/
structure Layout where
  plainFrom : Int
  plainBelow : Int

/-- Numbers from a ten-thousandth up to, and not including, ten to the sixteenth are written
plainly. -/
def Layout.standard : Layout := ⟨-4, 16⟩

/-- The digits `ds`, the first of which stands for `10 ^ e`, with a point and no exponent. -/
def plainText (ds : List Char) (e : Int) : List Char :=
  if e < 0 then ['0', '.'] ++ List.replicate (-e - 1).toNat '0' ++ ds
  else
    let n := e.toNat + 1
    let zeros := List.replicate (n - ds.length) '0'
    let fraction := ds.drop n
    ds.take n ++ zeros ++ ['.'] ++ (if fraction.isEmpty then ['0'] else fraction)

/-- The text of an integer. -/
def integerChars (i : Int) : List Char :=
  if i < 0 then '-' :: Nat.toDigits 10 i.natAbs else Nat.toDigits 10 i.natAbs

/-- The digits `ds`, the first of which stands for `10 ^ e`, with the exponent written out. -/
def exponentText (ds : List Char) (e : Int) : List Char :=
  let fraction := ds.drop 1
  ds.take 1 ++ (if fraction.isEmpty then [] else '.' :: fraction) ++ ['e'] ++ integerChars e

/-- The text of the decimal `d`. -/
def Layout.write (layout : Layout) (d : Decimal) : List Char :=
  let ds := Nat.toDigits 10 d.digits
  let e : Int := ds.length - 1 + d.exponent
  if layout.plainFrom ≤ e ∧ e < layout.plainBelow then plainText ds e else exponentText ds e

/-- The text of a floating-point number: the shortest decimal that reads back as it. Not-a-number
has no sign. -/
def floatChars (layout : Layout) (x : Float) : List Char :=
  let signed := fun text : List Char => if isNegative x then '-' :: text else text
  match shape x with
  | .nan => ['N', 'a', 'N']
  | .infinite => signed ['i', 'n', 'f']
  | .finite m q => signed (if m = 0 then ['0', '.', '0'] else layout.write (shortest m q))

/-- The text of an integer. -/
def integerText (i : Int) : String := String.ofList (integerChars i)

/-- The text of a floating-point number. -/
def floatText (x : Float) : String := String.ofList (floatChars Layout.standard x)

end ExprScript.Number
