/-!
# The shortest decimal that reads back

The reals that round to `m · 2^q` form an interval, closed exactly when `m` is even. The decimal
chosen for the number lies on the coarsest grid `10^k` that meets the interval; of two grid points
in the interval the nearer one is taken, and of two equally near ones the larger.

* `Neighbourhood`: the interval, in whole multiples of a power of two.
* `Neighbourhood.pick?`: the point chosen on one grid.
* `shortest`: the point chosen on the coarsest grid that has one.
-/

namespace ExprScript.Number

/-- The number `digits · 10 ^ exponent`. -/
structure Decimal where
  digits : Nat
  exponent : Int
  deriving DecidableEq, Repr

/-- The reals that round to one binary number: from `low` to `high` around `middle`, all counted in
units of `2 ^ unit`. -/
structure Neighbourhood where
  low : Nat
  middle : Nat
  high : Nat
  unit : Int
  /-- The two ends round to the number too. -/
  closed : Bool

/-- The reals that round to `m · 2 ^ q`, in quarters of `2 ^ q`. Below the least mantissa of an
exponent the numbers stand twice as close, except below the least normal number. -/
def Neighbourhood.of (m : Nat) (q : Int) : Neighbourhood where
  low := 4 * m - (if m = 1 <<< 52 ∧ -1074 < q then 1 else 2)
  middle := 4 * m
  high := 4 * m + 2
  unit := q - 2
  closed := m % 2 = 0

/-- Factors `a`, `b` such that `d · 10 ^ k` and `n · 2 ^ unit` compare as `d · a` and `n · b`. -/
def commonScale (k unit : Int) : Nat × Nat :=
  (Nat.pow 10 k.toNat <<< (-unit).toNat, Nat.pow 10 (-k).toNat <<< unit.toNat)

/-- The point `d · 10 ^ k` lies in the interval. -/
def Neighbourhood.contains (v : Neighbourhood) (d : Nat) (k : Int) : Bool :=
  let (a, b) := commonScale k v.unit
  if v.closed then v.low * b ≤ d * a && d * a ≤ v.high * b
  else v.low * b < d * a && d * a < v.high * b

/-- The point of the grid `10 ^ k` chosen for the number, if one lies in the interval: the nearer of
its two neighbours on the grid, the larger if they are equally near. -/
def Neighbourhood.pick? (v : Neighbourhood) (k : Int) : Option Nat :=
  let (a, b) := commonScale k v.unit
  let below := v.middle * b / a
  match v.contains below k, v.contains (below + 1) k with
  | true, true => some (if 2 * (v.middle * b) < (2 * below + 1) * a then below else below + 1)
  | true, false => some below
  | false, true => some (below + 1)
  | false, false => none

/-- A decimal exponent above that of every point of the interval: `0.30103` is just above the
logarithm of two. -/
def Neighbourhood.topExponent (v : Neighbourhood) : Int :=
  (v.middle.log2 + 1 + v.unit) * 30103 / 100000 + 1

/-- The shortest decimal that rounds to `m · 2 ^ q`, for a positive `m`. Seventeen digits always
suffice, so twenty grids from the top reach one with a point. -/
def shortest (m : Nat) (q : Int) : Decimal :=
  let v := Neighbourhood.of m q
  let grids := (List.range 20).map fun i : Nat => v.topExponent - (i : Int)
  (grids.findSome? fun k => (v.pick? k).map fun d => Decimal.mk d k).getD ⟨0, 0⟩

end ExprScript.Number
