/-!
# Floating-point numbers as whole multiples of powers of two

A finite `Float` is `m · 2^q` with a sign, read off its bits. In the other direction `nearest`
rounds a ratio of natural numbers once, to the nearest number of the format and to the even one of
two equally near.

* `shape`: what the bits say besides the sign.
* `nearestBits`, `nearest`: the number nearest to a ratio; infinity when it is too large.
-/

namespace ExprScript.Number

/-- What a floating-point number is, its sign apart. -/
inductive Shape where
  | nan
  | infinite
  /-- The number `mantissa · 2 ^ exponent`. -/
  | finite (mantissa : Nat) (exponent : Int)
  deriving DecidableEq

/-- The least exponent of the format, that of the subnormal numbers. -/
def leastExponent : Int := -1074

/-- The bits of positive infinity, above those of every finite positive number. -/
def infinityBits : Nat := 2047 <<< 52

/-- The shape of the number with these bits. -/
def shapeOfBits (bits : Nat) : Shape :=
  let field : Nat := bits >>> 52 % 1 <<< 11
  let fraction : Nat := bits % 1 <<< 52
  if field = 2047 then
    if fraction = 0 then .infinite else .nan
  else if field = 0 then .finite fraction leastExponent
  else .finite (1 <<< 52 + fraction) (leastExponent + field - 1)

/-- The shape of `x`. -/
def shape (x : Float) : Shape := shapeOfBits x.toBits.toNat

/-- The sign bit of `x`. -/
def isNegative (x : Float) : Bool := 1 <<< 63 ≤ x.toBits.toNat

/-- `n / d` to the nearest whole number, a half to the even one. -/
def divNearest (n d : Nat) : Nat :=
  let quotient := n / d
  let twice := 2 * (n % d)
  if twice < d then quotient
  else if d < twice then quotient + 1
  else quotient + quotient % 2

/-- The ratio `n / d` counted in units of `2 ^ q`, as a ratio again. -/
def inUnits (n d : Nat) (q : Int) : Nat × Nat :=
  (n <<< (-q).toNat, d <<< q.toNat)

/-- The exponent of the unit in which `n / d` has 53 binary digits, or the least one if that is
smaller. -/
def unitExponent (n d : Nat) : Int :=
  let q : Int := n.log2 - d.log2 - 52
  let (a, b) := inUnits n d q
  max leastExponent (if a < b <<< 52 then q - 1 else q)

/-- The bits of the number nearest to `n / d`. A mantissa that rounds up to `2 ^ 53` carries into
the exponent field by itself. -/
def nearestBits (n d : Nat) : Nat :=
  if n = 0 then 0
  else
    let q := unitExponent n d
    let (a, b) := inUnits n d q
    min ((q - leastExponent).toNat <<< 52 + divNearest a b) infinityBits

/-- Positive infinity. -/
def infinity : Float := Float.ofBits (UInt64.ofNat infinityBits)

/-- The floating-point number nearest to `n / d`. -/
def nearest (n d : Nat) : Float :=
  Float.ofBits (UInt64.ofNat (nearestBits n d))

theorem nearestBits_le (n d : Nat) : nearestBits n d ≤ infinityBits := by
  unfold nearestBits
  split
  · exact Nat.zero_le _
  · exact Nat.min_le_right _ _

end ExprScript.Number
