import ExprScript.Number.Binary64

/-!
# Reading numbers

* `integer?`: a sign and decimal digits, within 64 bits.
* `fraction?`: a sign, digits around a point, and an exponent, rounded once to the nearest
  floating-point number. One side of the point may be empty, not both.
-/

namespace ExprScript.Number

/-- Whether the text starts with a minus sign, and what follows the sign, if any. -/
def splitSign : List Char → Bool × List Char
  | '-' :: cs => (true, cs)
  | '+' :: cs => (false, cs)
  | cs => (false, cs)

/-- The number that a run of decimal digits denotes. -/
def ofDigits (ds : List Char) : Nat := Nat.ofDigitChars 10 ds 0

/-- A run of digits that is not empty, as a number. -/
def digits? (ds : List Char) : Option Nat :=
  if !ds.isEmpty && ds.all Char.isDigit then some (ofDigits ds) else none

/-- A sign and digits, as an integer of any size. -/
def signedDigits? (cs : List Char) : Option Int :=
  let (negative, ds) := splitSign cs
  (digits? ds).map fun n => if negative then -(n : Int) else n

/-- An integer of 64 bits. -/
def integer? (cs : List Char) : Option Int64 :=
  (signedDigits? cs).bind fun i =>
    if Int64.minValue.toInt ≤ i ∧ i ≤ Int64.maxValue.toInt then some (Int64.ofInt i) else none

/-- The exponent after the digits: nothing, or a mark, a sign and digits. -/
def exponent? : List Char → Option Int
  | [] => some 0
  | c :: cs => if c = 'e' ∨ c = 'E' then signedDigits? cs else none

/-- The floating-point number nearest to `n · 10 ^ e`. Beyond a thousand places from the point every
number is infinite or zero, whatever its digits. -/
def ofScientific (n : Nat) (e : Int) : Float :=
  let places : Int := (Nat.toDigits 10 n).length + e
  if n = 0 ∨ places < -1000 then nearest 0 1
  else if 1000 < places then infinity
  else nearest (n * Nat.pow 10 e.toNat) (Nat.pow 10 (-e).toNat)

/-- A number written with a point. -/
def fraction? (cs : List Char) : Option Float :=
  let (negative, body) := splitSign cs
  let whole := body.takeWhile Char.isDigit
  match body.dropWhile Char.isDigit with
  | '.' :: after =>
    let part := after.takeWhile Char.isDigit
    let ds := whole ++ part
    if ds.isEmpty then none
    else
      (exponent? (after.dropWhile Char.isDigit)).map fun e =>
        let x := ofScientific (ofDigits ds) (e - part.length)
        if negative then -x else x
  | _ => none

end ExprScript.Number
