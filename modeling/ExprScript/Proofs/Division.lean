import ExprScript.Proofs.Operation
import Mathlib.Data.Rat.Floor

/-!
# Integer division

The quotient rounded towards zero is lowered by one where something is left over and the signs
differ. That makes it the quotient rounded down, and the lowered quotient is still a word: a
quotient that needs to be lowered is not the least integer, since the result would be positive
otherwise. The one quotient that does not fit in a word is that of the least integer by minus one,
and it wraps to the least integer.

* `floor_div_eq_fdiv`, `fmod_between`: division rounded down, and what it leaves.
* `fdiv_fits`: the quotient of two words is a word, with one exception.
* `Lowered`, **`Lowered.le_sub_one`**: lowering the quotient does not wrap.
* **`divide_floors`**: the quotient of two integers.
-/

namespace ExprScript

/-! ## Division of any integers -/

theorem floor_div_eq_fdiv (a b : ℤ) : ⌊(a / b : ℚ)⌋ = a.fdiv b := by
  have nonneg (a : ℤ) (d : ℕ) : ⌊(a / (d : ℤ) : ℚ)⌋ = a.fdiv d := by
    rw [Int.fdiv_eq_ediv_of_nonneg a (Int.natCast_nonneg d), Int.cast_natCast,
      Rat.floor_intCast_div_natCast]
  obtain ⟨d, rfl | rfl⟩ := b.eq_nat_or_neg
  · exact nonneg a d
  · rw [← Int.neg_fdiv_neg, neg_neg, ← nonneg, Int.cast_neg, Int.cast_neg, div_neg, neg_div]

theorem fmod_between {b : ℤ} (a : ℤ) (hb : b ≠ 0) :
    0 ≤ a.fmod b ∧ a.fmod b < b ∨ b < a.fmod b ∧ a.fmod b ≤ 0 := by
  rcases lt_or_gt_of_ne hb with hb | hb
  · have hlow := Int.fmod_nonneg_of_pos (-a) (neg_pos.2 hb)
    have hhigh := Int.fmod_lt_of_pos (-a) (neg_pos.2 hb)
    rw [Int.neg_fmod_neg] at hlow hhigh
    exact .inr ⟨by omega, by omega⟩
  · exact .inl ⟨Int.fmod_nonneg_of_pos a hb, Int.fmod_lt_of_pos a hb⟩

theorem fdiv_fits {a b : ℤ} (hlow : -2 ^ 63 ≤ a) (hhigh : a < 2 ^ 63) (hb : b ≠ 0)
    (hne : ¬ (a = -2 ^ 63 ∧ b = -1)) : -2 ^ 63 ≤ a.fdiv b ∧ a.fdiv b < 2 ^ 63 := by
  rcases lt_or_gt_of_ne hb with hb | hb
  · have hb' : 0 < -b := neg_pos.2 hb
    rw [← Int.neg_fdiv_neg, Int.fdiv_eq_ediv_of_nonneg _ hb'.le, Int.le_ediv_iff_mul_le hb',
      Int.ediv_lt_iff_lt_mul hb']
    omega
  · rw [Int.fdiv_eq_ediv_of_nonneg _ hb.le, Int.le_ediv_iff_mul_le hb, Int.ediv_lt_iff_lt_mul hb]
    omega

theorem fdiv_neg_of_signs {a b : ℤ} (h : a < 0 ∧ 0 < b ∨ 0 < a ∧ b < 0) : a.fdiv b < 0 := by
  rcases h with ⟨ha, hb⟩ | ⟨ha, hb⟩
  · rw [Int.fdiv_eq_ediv_of_nonneg _ hb.le, Int.ediv_lt_iff_lt_mul hb]
    omega
  · have hb' : 0 < -b := neg_pos.2 hb
    rw [← Int.neg_fdiv_neg, Int.fdiv_eq_ediv_of_nonneg _ hb'.le, Int.ediv_lt_iff_lt_mul hb']
    omega

/-! ## Division of words -/

section Words

variable {a b : Int64}

theorem toInt_ne_zero (hb : b ≠ 0) : b.toInt ≠ 0 :=
  fun h => hb (Int64.toInt_inj.1 h)

/-- **The quotient is rounded down,** except where it is too large. -/
theorem toInt_floorDiv (hb : b ≠ 0) (hne : ¬ (a = Int64.minValue ∧ b = -1)) :
    (floorDiv a b).toInt = a.toInt.fdiv b.toInt := by
  have hne' : ¬ (a.toInt = -2 ^ 63 ∧ b.toInt = -1) := by
    rintro ⟨ha, hb⟩
    exact hne ⟨Int64.toInt_inj.1 ha, Int64.toInt_inj.1 hb⟩
  obtain ⟨hlow, hhigh⟩ := fdiv_fits a.le_toInt a.toInt_lt (toInt_ne_zero hb) hne'
  rw [floorDiv_eq a b hb, Int64.toInt_ofInt_of_le hlow hhigh]

/-- Something is left over and the signs differ, so the quotient rounded towards zero is too
large. -/
def Lowered (a b : Int64) : Prop := a % b ≠ 0 ∧ (a < 0 ↔ ¬ b < 0)

theorem floorDiv_of_lowered (h : Lowered a b) : floorDiv a b = a / b - 1 := if_pos h

theorem floorDiv_of_not_lowered (h : ¬ Lowered a b) : floorDiv a b = a / b := if_neg h

theorem Lowered.signs (hb : b ≠ 0) (h : Lowered a b) :
    a.toInt < 0 ∧ 0 < b.toInt ∨ 0 < a.toInt ∧ b.toInt < 0 := by
  obtain ⟨hrest, hsigns⟩ := h
  have ha : a.toInt ≠ 0 := by
    refine toInt_ne_zero ?_
    rintro rfl
    exact hrest (Int64.zero_mod)
  have hb' := toInt_ne_zero hb
  rw [Int64.lt_iff_toInt_lt, Int64.lt_iff_toInt_lt, Int64.toInt_zero] at hsigns
  omega

theorem Lowered.floorDiv_neg (hb : b ≠ 0) (h : Lowered a b) : (floorDiv a b).toInt < 0 := by
  have hne : ¬ (a = Int64.minValue ∧ b = -1) := by
    rintro ⟨rfl, rfl⟩
    exact h.1 (by decide)
  rw [toInt_floorDiv hb hne]
  exact fdiv_neg_of_signs (h.signs hb)

/-- **Lowering the quotient does not wrap.** -/
theorem Lowered.le_sub_one (hb : b ≠ 0) (h : Lowered a b) : -2 ^ 63 ≤ (a / b).toInt - 1 := by
  have hneg := h.floorDiv_neg hb
  rw [floorDiv_of_lowered h, Int64.toInt_sub] at hneg
  by_contra hlt
  have hleast : (a / b).toInt = -2 ^ 63 := by
    have := (a / b).le_toInt
    omega
  -- one less than the least integer wraps to the greatest
  rw [hleast] at hneg
  exact absurd hneg (by decide)

end Words

/-- **The quotient of two integers is rounded down**, except that of the least one by minus one,
which wraps. -/
theorem divide_floors (a b : Int64) :
    (Arithmetic.divide.apply (.integer a) (.integer b) =
        .error (.divideByZero (Value.integer a).text) ↔ b = 0) ∧
      (b ≠ 0 → ∃ q, Arithmetic.divide.apply (.integer a) (.integer b) = .ok (.integer q) ∧
        (a = Int64.minValue ∧ b = -1 → q = Int64.minValue) ∧
        (¬ (a = Int64.minValue ∧ b = -1) → q.toInt = ⌊(a.toInt / b.toInt : ℚ)⌋ ∧
          let r := a.toInt - b.toInt * q.toInt
          0 ≤ r ∧ r < b.toInt ∨ b.toInt < r ∧ r ≤ 0) ∧
        (¬ Lowered a b → q = a / b) ∧
        (Lowered a b → q = a / b - 1 ∧ -2 ^ 63 ≤ (a / b).toInt - 1)) := by
  have hzero (hb : b = 0) : Arithmetic.divide.apply (.integer a) (.integer b) =
      .error (.divideByZero (Value.integer a).text) := by
    simp [Arithmetic.apply, Value.tag, Value.isZero, hb]
  have hdivides (hb : b ≠ 0) : Arithmetic.divide.apply (.integer a) (.integer b) =
      .ok (.integer (floorDiv a b)) := by
    simp [Arithmetic.apply, Arithmetic.compute, Value.tag, Value.isZero, hb]
  refine ⟨⟨fun h => ?_, hzero⟩, fun hb => ⟨floorDiv a b, hdivides hb, ?_, fun hne => ?_,
    floorDiv_of_not_lowered, fun h => ⟨floorDiv_of_lowered h, h.le_sub_one hb⟩⟩⟩
  · by_contra hb
    rw [hdivides hb] at h
    cases h
  · rintro ⟨rfl, rfl⟩
    decide
  · rw [toInt_floorDiv hb hne, floor_div_eq_fdiv, ← Int.fmod_def]
    exact ⟨rfl, fmod_between a.toInt (toInt_ne_zero hb)⟩

example : floorDiv (-7) 2 = -4 ∧ floorDiv 7 (-2) = -4 ∧ floorDiv (-7) (-2) = 3 := by decide

end ExprScript
