/-!
# Sets of characters given by ranges

A character property is listed as closed ranges of code points in increasing order.

* `Ranges.holds`: a character lies in one of the ranges.
* `Ranges.holds_iff`: the same, as an existential statement.
-/

namespace ExprScript.Text

/-- Closed ranges of code points. -/
abbrev Ranges := List (Nat × Nat)

/-- `c` lies in one of the ranges. -/
def Ranges.holds (ranges : Ranges) (c : Char) : Bool :=
  ranges.any fun r => r.1 ≤ c.toNat && c.toNat ≤ r.2

theorem Ranges.holds_iff (ranges : Ranges) (c : Char) :
    ranges.holds c = true ↔ ∃ r ∈ ranges, r.1 ≤ c.toNat ∧ c.toNat ≤ r.2 := by
  simp [Ranges.holds]

end ExprScript.Text
