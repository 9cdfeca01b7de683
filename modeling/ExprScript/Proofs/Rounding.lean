import ExprScript.Number.Binary64
import Mathlib.Algebra.Order.Field.Basic
import Mathlib.Algebra.Order.Field.Power
import Mathlib.Tactic.FieldSimp
import Mathlib.Tactic.Linarith
import Mathlib.Tactic.Ring

/-!
# Rounding to the nearest number

The numbers without a sign, in the order of their bits, divide the ratios among them: each ratio
goes to the nearest number, and halfway between two to the one with even bits. Infinity takes the
place of the power of two after the greatest number.

* `magnitude`: the number with these bits; `magnitude_strictMono`: bits are in order.
* `Rounds`: a number is the nearest to a ratio; `rounds_iff`: only its neighbours matter;
  `Rounds.unique`.
* `divNearest_spec`, `unitExponent_spec`: the nearest whole number, and the unit of a ratio.
* **`rounds_nearestBits`**, `nearestBits_eq_iff`: the number computed for a ratio is the nearest.
* `shapeOfBits_eq`: how the bits of a finite number are read.
-/

namespace ExprScript.Number

/-! ## The numbers of the format -/

/-- The exponent of the unit in which the number with these bits is counted, above the least one. -/
def scale (b : ℕ) : ℕ := b / 2 ^ 52 - 1

/-- How many of these units the number has. -/
def significand (b : ℕ) : ℕ := b - scale b * 2 ^ 52

/-- The number with these bits and no sign, for exponents without end. The bits of infinity stand
for the power of two that comes after the greatest number. -/
def magnitude (b : ℕ) : ℚ := significand b * 2 ^ (scale b + leastExponent)

/-- The bits count on from one power of two to the next. -/
theorem magnitude_add {s r : ℕ} (hr : r ≤ 2 ^ 53) (hs : s = 0 ∨ 2 ^ 52 ≤ r) :
    magnitude (s * 2 ^ 52 + r) = r * 2 ^ (s + leastExponent) := by
  rcases hr.lt_or_eq with hlt | rfl
  · have hscale : scale (s * 2 ^ 52 + r) = s := by
      unfold scale
      omega
    rw [magnitude, significand, hscale, Nat.add_sub_cancel_left]
  · have hscale : scale (s * 2 ^ 52 + 2 ^ 53) = s + 1 := by
      unfold scale
      omega
    have hleft : s * 2 ^ 52 + 2 ^ 53 - (s + 1) * 2 ^ 52 = 2 ^ 52 := by omega
    have hexp : ((s + 1 : ℕ) : ℤ) + leastExponent = s + leastExponent + 1 := by push_cast; ring
    rw [magnitude, significand, hscale, hleft, hexp, zpow_add_one₀ two_ne_zero]
    push_cast
    ring

theorem significand_spec (b : ℕ) :
    b = scale b * 2 ^ 52 + significand b ∧ significand b < 2 ^ 53 ∧
      (scale b = 0 ∨ 2 ^ 52 ≤ significand b) := by
  unfold significand scale
  omega

/-- The next number is one unit away. -/
theorem magnitude_succ (b : ℕ) :
    magnitude (b + 1) = magnitude b + 2 ^ (scale b + leastExponent) := by
  obtain ⟨hb, hr, hs⟩ := significand_spec b
  have hsucc : b + 1 = scale b * 2 ^ 52 + (significand b + 1) := by omega
  rw [hsucc, magnitude_add (by omega) (by omega), magnitude]
  push_cast
  ring

theorem magnitude_strictMono : StrictMono magnitude :=
  strictMono_nat_of_lt_succ fun b => by
    rw [magnitude_succ]
    exact lt_add_of_pos_right _ (by positivity)

theorem magnitude_zero : magnitude 0 = 0 := by
  simp [magnitude, significand]

/-! ## Rounding -/

/-- The number with the bits `b` is the nearest to `v`, and of two equally near the one with even
bits. -/
structure Rounds (v : ℚ) (b : ℕ) : Prop where
  le : b ≤ infinityBits
  nearest : ∀ c ≤ infinityBits, |magnitude b - v| ≤ |magnitude c - v|
  even : ∀ c ≤ infinityBits, c ≠ b → |magnitude c - v| = |magnitude b - v| → Even b

/-- `v` lies above the middle between `b` and the number before it, or on it if `b` is even. -/
def Above (v : ℚ) (b : ℕ) : Prop :=
  ∀ c, c + 1 = b →
    magnitude c + magnitude b ≤ 2 * v ∧ (magnitude c + magnitude b = 2 * v → Even b)

/-- `v` lies below the middle between `b` and the number after it, or on it if `b` is even. -/
def Below (v : ℚ) (b : ℕ) : Prop :=
  2 * v ≤ magnitude b + magnitude (b + 1) ∧ (2 * v = magnitude b + magnitude (b + 1) → Even b)

theorem Above.mono {v w : ℚ} {b : ℕ} (h : Above v b) (hvw : v ≤ w) : Above w b := by
  intro c hc
  obtain ⟨hle, heven⟩ := h c hc
  exact ⟨by linarith, fun heq => heven (by linarith)⟩

theorem Below.mono {v w : ℚ} {b : ℕ} (h : Below w b) (hvw : v ≤ w) : Below v b := by
  obtain ⟨hle, heven⟩ := h
  exact ⟨by linarith, fun heq => heven (by linarith)⟩

theorem above_magnitude (b : ℕ) : Above (magnitude b) b := by
  intro c hc
  have hlt : magnitude c < magnitude b := magnitude_strictMono (by omega)
  exact ⟨by linarith, fun heq => absurd heq (by linarith)⟩

theorem below_magnitude (b : ℕ) : Below (magnitude b) b := by
  have hlt : magnitude b < magnitude (b + 1) := magnitude_strictMono (by omega)
  exact ⟨by linarith, fun heq => absurd heq (by linarith)⟩

theorem Above.nearest {v : ℚ} {b c : ℕ} (h : Above v b) (hc : c < b) :
    |magnitude b - v| ≤ |magnitude c - v| ∧
      (|magnitude c - v| = |magnitude b - v| → Even b) := by
  obtain ⟨a, rfl⟩ : ∃ a, a + 1 = b := ⟨b - 1, by omega⟩
  obtain ⟨hle, heven⟩ := h a rfl
  have hca : magnitude c ≤ magnitude a := magnitude_strictMono.monotone (by omega)
  have hab : magnitude a < magnitude (a + 1) := magnitude_strictMono (by omega)
  have hc' : |magnitude c - v| = v - magnitude c := by
    rw [abs_sub_comm]
    exact abs_of_nonneg (by linarith)
  rw [hc']
  refine ⟨abs_le.2 ⟨by linarith, by linarith⟩, fun heq => heven ?_⟩
  rcases abs_cases (magnitude (a + 1) - v) with ⟨hb, -⟩ | ⟨hb, -⟩ <;> linarith

theorem Below.nearest {v : ℚ} {b c : ℕ} (h : Below v b) (hc : b < c) :
    |magnitude b - v| ≤ |magnitude c - v| ∧
      (|magnitude c - v| = |magnitude b - v| → Even b) := by
  obtain ⟨hle, heven⟩ := h
  have hbc : magnitude (b + 1) ≤ magnitude c := magnitude_strictMono.monotone hc
  have hb : magnitude b < magnitude (b + 1) := magnitude_strictMono (by omega)
  have hc' : |magnitude c - v| = magnitude c - v := abs_of_nonneg (by linarith)
  rw [hc']
  refine ⟨abs_le.2 ⟨by linarith, by linarith⟩, fun heq => heven ?_⟩
  rcases abs_cases (magnitude b - v) with ⟨hb, -⟩ | ⟨hb, -⟩ <;> linarith

/-- **Only the neighbours matter.** -/
theorem rounds_iff {v : ℚ} {b : ℕ} :
    Rounds v b ↔ b ≤ infinityBits ∧ Above v b ∧ (b < infinityBits → Below v b) := by
  constructor
  · intro h
    refine ⟨h.le, fun c hc => ?_, fun hb => ?_⟩
    · have hlt : magnitude c < magnitude b := magnitude_strictMono (by omega)
      have hnear := h.nearest c (by have := h.le; omega)
      refine ⟨?_, fun heq => h.even c (by have := h.le; omega) (by omega) ?_⟩
      · by_contra hgt
        have := abs_lt.2 ⟨show -(magnitude b - v) < magnitude c - v by linarith,
          show magnitude c - v < magnitude b - v by linarith⟩
        linarith [le_abs_self (magnitude b - v)]
      · rw [abs_of_nonneg (by linarith : 0 ≤ magnitude b - v), abs_sub_comm,
          abs_of_nonneg (by linarith : 0 ≤ v - magnitude c)]
        linarith
    · have hlt : magnitude b < magnitude (b + 1) := magnitude_strictMono (by omega)
      have hnear := h.nearest (b + 1) hb
      refine ⟨?_, fun heq => h.even (b + 1) hb (by omega) ?_⟩
      · by_contra hgt
        have := abs_lt.2 ⟨show -(v - magnitude b) < magnitude (b + 1) - v by linarith,
          show magnitude (b + 1) - v < v - magnitude b by linarith⟩
        linarith [neg_abs_le (magnitude b - v)]
      · rw [abs_of_nonneg (by linarith : 0 ≤ magnitude (b + 1) - v), abs_sub_comm,
          abs_of_nonneg (by linarith : 0 ≤ v - magnitude b)]
        linarith
  · rintro ⟨hle, habove, hbelow⟩
    refine ⟨hle, fun c hc => ?_, fun c hc hne => ?_⟩
    · rcases lt_trichotomy c b with h | rfl | h
      · exact (habove.nearest h).1
      · exact le_rfl
      · exact ((hbelow (by omega)).nearest h).1
    · rcases lt_or_gt_of_ne hne with h | h
      · exact (habove.nearest h).2
      · exact ((hbelow (by omega)).nearest h).2

/-- A ratio is rounded to one number. -/
theorem Rounds.unique {v : ℚ} {b c : ℕ} (hb : Rounds v b) (hc : Rounds v c) : b = c := by
  wlog hlt : b < c generalizing b c
  · by_contra hne
    exact hne (this hc hb (by omega)).symm
  obtain ⟨a, rfl⟩ : ∃ a, a + 1 = c := ⟨c - 1, by omega⟩
  obtain ⟨hle, heven⟩ := (rounds_iff.1 hb).2.2 (by have := hc.le; omega)
  obtain ⟨hle', heven'⟩ := (rounds_iff.1 hc).2.1 a rfl
  have hba : magnitude b ≤ magnitude a := magnitude_strictMono.monotone (by omega)
  have hba' : magnitude (b + 1) ≤ magnitude (a + 1) := magnitude_strictMono.monotone (by omega)
  obtain rfl : b = a := magnitude_strictMono.injective (by linarith)
  exact absurd (heven' (by linarith)) (Nat.not_even_iff_odd.2 (heven (by linarith)).add_one)

/-! ## The nearest whole number -/

theorem divNearest_spec (a : ℕ) {b : ℕ} (hb : 0 < b) :
    |(divNearest a b : ℚ) - a / b| ≤ 1 / 2 ∧
      (|(divNearest a b : ℚ) - a / b| = 1 / 2 → Even (divNearest a b)) := by
  have hb' : (0 : ℚ) < b := by exact_mod_cast hb
  have hdiv : (a : ℚ) / b = (a / b : ℕ) + (a % b : ℕ) / b := by
    rw [div_eq_iff hb'.ne', add_mul, div_mul_cancel₀ _ hb'.ne']
    exact_mod_cast (Nat.div_add_mod' a b).symm
  have hmod : ((a % b : ℕ) : ℚ) / b < 1 := (div_lt_one hb').2 (by exact_mod_cast Nat.mod_lt a hb)
  have hhalf : ((a % b : ℕ) : ℚ) / b < 1 / 2 ↔ 2 * (a % b) < b := by
    rw [div_lt_div_iff₀ hb' two_pos]
    norm_cast
    omega
  have hhalf' : 1 / 2 < ((a % b : ℕ) : ℚ) / b ↔ b < 2 * (a % b) := by
    rw [div_lt_div_iff₀ two_pos hb']
    norm_cast
    omega
  have hpos : 0 ≤ ((a % b : ℕ) : ℚ) / b := by positivity
  rw [hdiv]
  generalize ((a % b : ℕ) : ℚ) / b = t at hmod hhalf hhalf' hpos
  unfold divNearest
  dsimp only
  split_ifs with h₁ h₂
  · have ht : t < 1 / 2 := hhalf.2 h₁
    rw [sub_add_cancel_left, abs_neg, abs_of_nonneg hpos]
    exact ⟨ht.le, fun h => absurd h ht.ne⟩
  · have ht : 1 / 2 < t := hhalf'.2 h₂
    have habs : |((a / b + 1 : ℕ) : ℚ) - ((a / b : ℕ) + t)| = 1 - t := by
      push_cast
      rw [add_sub_add_left_eq_sub, abs_of_pos (by linarith)]
    rw [habs]
    exact ⟨by linarith, fun h => absurd h (by linarith)⟩
  · have ht : t = 1 / 2 := le_antisymm (not_lt.1 (mt hhalf'.1 h₂)) (not_lt.1 (mt hhalf.1 h₁))
    refine ⟨?_, fun _ => Nat.even_iff.2 (by omega)⟩
    push_cast
    rw [add_sub_add_left_eq_sub, ht]
    rcases Nat.mod_two_eq_zero_or_one (a / b) with h | h <;> rw [h] <;> norm_num

/-! ## The unit of a ratio -/

theorem inUnits_pos (n : ℕ) {d : ℕ} (hd : 0 < d) (q : ℤ) : 0 < (inUnits n d q).2 := by
  change 0 < d <<< q.toNat
  rw [Nat.shiftLeft_eq]
  positivity

theorem inUnits_div (n : ℕ) {d : ℕ} (hd : 0 < d) (q : ℤ) :
    ((inUnits n d q).1 : ℚ) / (inUnits n d q).2 = n / d / 2 ^ q := by
  have hq : (2 : ℚ) ^ q = 2 ^ q.toNat / 2 ^ (-q).toNat := by
    rw [← zpow_natCast, ← zpow_natCast, ← zpow_sub₀ two_ne_zero]
    congr 1
    omega
  have hd' : (d : ℚ) ≠ 0 := by exact_mod_cast hd.ne'
  rw [inUnits, Nat.shiftLeft_eq, Nat.shiftLeft_eq, hq]
  push_cast
  field_simp

theorem two_zpow_log2 {n : ℕ} (hn : 0 < n) :
    (2 : ℚ) ^ (n.log2 : ℤ) ≤ n ∧ (n : ℚ) < 2 ^ (n.log2 + 1 : ℤ) := by
  constructor
  · rw [zpow_natCast]
    exact_mod_cast Nat.log2_self_le hn.ne'
  · have := Nat.lt_log2_self (n := n)
    exact_mod_cast this

/-- The difference of the binary lengths is off by one at most. -/
theorem div_bounds {n d : ℕ} (hn : 0 < n) (hd : 0 < d) :
    (2 : ℚ) ^ 51 < n / d / 2 ^ (n.log2 - d.log2 - 52 : ℤ) ∧
      (n : ℚ) / d / 2 ^ (n.log2 - d.log2 - 52 : ℤ) < 2 ^ 53 := by
  have hd' : (0 : ℚ) < d := by exact_mod_cast hd
  obtain ⟨hn₁, hn₂⟩ := two_zpow_log2 hn
  obtain ⟨hd₁, hd₂⟩ := two_zpow_log2 hd
  constructor
  · rw [lt_div_iff₀ (by positivity), lt_div_iff₀ hd']
    calc (2 : ℚ) ^ 51 * 2 ^ (n.log2 - d.log2 - 52 : ℤ) * d
        < 2 ^ 51 * 2 ^ (n.log2 - d.log2 - 52 : ℤ) * 2 ^ (d.log2 + 1 : ℤ) := by gcongr
      _ = 2 ^ (n.log2 : ℤ) := by
        rw [← zpow_natCast, ← zpow_add₀ two_ne_zero, ← zpow_add₀ two_ne_zero]
        congr 1
        push_cast
        ring
      _ ≤ n := hn₁
  · rw [div_lt_iff₀ (by positivity), div_lt_iff₀ hd']
    calc (n : ℚ) < 2 ^ (n.log2 + 1 : ℤ) := hn₂
      _ = 2 ^ 53 * 2 ^ (n.log2 - d.log2 - 52 : ℤ) * 2 ^ (d.log2 : ℤ) := by
        rw [← zpow_natCast, ← zpow_add₀ two_ne_zero, ← zpow_add₀ two_ne_zero]
        congr 1
        push_cast
        ring
      _ ≤ 2 ^ 53 * 2 ^ (n.log2 - d.log2 - 52 : ℤ) * d := by gcongr

theorem unitExponent_eq (n : ℕ) {d : ℕ} (hd : 0 < d) :
    unitExponent n d = max leastExponent
      (if (n : ℚ) / d / 2 ^ (n.log2 - d.log2 - 52 : ℤ) < 2 ^ 52 then n.log2 - d.log2 - 52 - 1
        else n.log2 - d.log2 - 52) := by
  have hdigits (q : ℤ) : (inUnits n d q).1 < (inUnits n d q).2 <<< 52 ↔
      (n : ℚ) / d / 2 ^ q < 2 ^ 52 := by
    rw [← inUnits_div n hd, div_lt_iff₀ (by exact_mod_cast inUnits_pos n hd q), mul_comm,
      Nat.shiftLeft_eq]
    exact_mod_cast Iff.rfl
  simp only [← hdigits]
  rfl

/-- In its unit a ratio has at most 53 binary digits, and no fewer unless the unit is the least. -/
theorem unitExponent_spec {n d : ℕ} (hn : 0 < n) (hd : 0 < d) :
    leastExponent ≤ unitExponent n d ∧
      (n : ℚ) / d / 2 ^ unitExponent n d < 2 ^ 53 ∧
      (unitExponent n d = leastExponent ∨ 2 ^ 52 ≤ (n : ℚ) / d / 2 ^ unitExponent n d) := by
  obtain ⟨hlow, hhigh⟩ := div_bounds hn hd
  have hx : (0 : ℚ) ≤ n / d := by positivity
  rw [unitExponent_eq n hd]
  generalize (n.log2 - d.log2 - 52 : ℤ) = q at hlow hhigh ⊢
  generalize (n : ℚ) / d = x at hlow hhigh hx ⊢
  obtain ⟨p, hp, hp₁, hp₂⟩ : ∃ p, (if x / 2 ^ q < 2 ^ 52 then q - 1 else q) = p ∧
      2 ^ 52 ≤ x / 2 ^ p ∧ x / 2 ^ p < 2 ^ 53 := by
    by_cases h : x / 2 ^ q < 2 ^ 52
    · have hdouble : x / 2 ^ (q - 1) = x / 2 ^ q * 2 := by
        rw [zpow_sub_one₀ two_ne_zero, ← div_eq_mul_inv, div_div_eq_mul_div, mul_div_right_comm]
      refine ⟨q - 1, if_pos h, ?_, ?_⟩ <;> rw [hdouble] <;> linarith
    · exact ⟨q, if_neg h, not_lt.1 h, hhigh⟩
  rw [hp]
  refine ⟨le_max_left _ _, ?_, ?_⟩
  · refine lt_of_le_of_lt ?_ hp₂
    gcongr
    · norm_num
    · exact le_max_right _ _
  · rcases le_total p leastExponent with h | h
    · exact .inl (max_eq_left h)
    · rw [max_eq_right h]
      exact .inr hp₁

/-! ## The nearest number -/

theorem even_bits_iff (s r : ℕ) : Even (s * 2 ^ 52 + r) ↔ Even r := by
  rw [Nat.even_iff, Nat.even_iff]
  omega

section Nearest

variable {y : ℚ} {s r : ℕ}

/-- A ratio of `y` units, rounded to `r` of them, lies above the middle before the result. -/
theorem above_of_near (hr : r ≤ 2 ^ 53) (hs : s = 0 ∨ 2 ^ 52 ≤ r) (hy : s = 0 ∨ 2 ^ 52 ≤ y)
    (hle : |r - y| ≤ 1 / 2) (heven : |r - y| = 1 / 2 → Even r) :
    Above (y * 2 ^ (s + leastExponent)) (s * 2 ^ 52 + r) := by
  have hu : (0 : ℚ) < 2 ^ (s + leastExponent) := by positivity
  intro c hc
  rw [magnitude_add hr hs, even_bits_iff]
  by_cases hfirst : s ≠ 0 ∧ r = 2 ^ 52
  · -- Before a power of two the unit is smaller, but the ratio is not below that power.
    obtain ⟨hs0, rfl⟩ := hfirst
    have hlt : magnitude c < magnitude (s * 2 ^ 52 + 2 ^ 52) := magnitude_strictMono (by omega)
    rw [magnitude_add hr hs] at hlt
    have hpow : (2 ^ 52 : ℕ) * (2 : ℚ) ^ (s + leastExponent) ≤ y * 2 ^ (s + leastExponent) := by
      push_cast
      exact mul_le_mul_of_nonneg_right (hy.resolve_left hs0) hu.le
    exact ⟨by linarith, fun heq => absurd heq (by linarith)⟩
  · obtain ⟨t, rfl⟩ : ∃ t, r = t + 1 := ⟨r - 1, by omega⟩
    obtain rfl : c = s * 2 ^ 52 + t := by omega
    rw [magnitude_add (by omega) (by omega)]
    push_cast at hle heven ⊢
    have hhalf : t + 1 / 2 ≤ y := by linarith [(abs_le.1 hle).2]
    refine ⟨by linarith [mul_le_mul_of_nonneg_right hhalf hu.le], fun heq => heven ?_⟩
    have hmiddle : (t + 1 / 2) * (2 : ℚ) ^ (s + leastExponent) = y * 2 ^ (s + leastExponent) := by
      linarith
    rw [← mul_right_cancel₀ hu.ne' hmiddle, add_sub_add_left_eq_sub]
    norm_num

/-- A ratio of `y` units, rounded to `r` of them, lies below the middle after the result. -/
theorem below_of_near (hr : r ≤ 2 ^ 53) (hs : s = 0 ∨ 2 ^ 52 ≤ r) (hle : |r - y| ≤ 1 / 2)
    (heven : |r - y| = 1 / 2 → Even r) :
    Below (y * 2 ^ (s + leastExponent)) (s * 2 ^ 52 + r) := by
  have hu : (0 : ℚ) < 2 ^ (s + leastExponent) := by positivity
  have hunit : (2 : ℚ) ^ (s + leastExponent) ≤
      2 ^ (scale (s * 2 ^ 52 + r) + leastExponent) := by
    refine zpow_le_zpow_right₀ one_le_two ?_
    unfold scale
    omega
  rw [Below, magnitude_succ, magnitude_add hr hs, even_bits_iff]
  have hhalf : y ≤ r + 1 / 2 := by linarith [(abs_le.1 hle).1]
  have hscaled := mul_le_mul_of_nonneg_right hhalf hu.le
  refine ⟨by linarith, fun heq => heven ?_⟩
  have hmiddle : y * (2 : ℚ) ^ (s + leastExponent) = (r + 1 / 2) * 2 ^ (s + leastExponent) := by
    linarith
  rw [mul_right_cancel₀ hu.ne' hmiddle, sub_add_cancel_left]
  norm_num

end Nearest

theorem Above.of_le {v : ℚ} {b c : ℕ} (h : Above v c) (hbc : b ≤ c) (hb : Even b) : Above v b := by
  intro a ha
  obtain ⟨d, rfl⟩ : ∃ d, d + 1 = c := ⟨c - 1, by omega⟩
  have had : magnitude a ≤ magnitude d := magnitude_strictMono.monotone (by omega)
  have hbd : magnitude b ≤ magnitude (d + 1) := magnitude_strictMono.monotone hbc
  exact ⟨by linarith [(h d rfl).1], fun _ => hb⟩

theorem rounds_zero : Rounds 0 0 := by
  have hpos := magnitude_strictMono Nat.zero_lt_one
  rw [magnitude_zero] at hpos
  refine rounds_iff.2
    ⟨Nat.zero_le _, fun c hc => absurd hc (by omega), fun _ => ⟨?_, fun _ => .zero⟩⟩
  rw [magnitude_zero]
  linarith

theorem nearestBits_eq {n d s : ℕ} (hn : 0 < n) (hs : unitExponent n d = s + leastExponent) :
    nearestBits n d = min (s * 2 ^ 52 + divNearest (inUnits n d (s + leastExponent)).1
      (inUnits n d (s + leastExponent)).2) infinityBits := by
  rw [nearestBits, if_neg hn.ne', hs]
  change min ((s + leastExponent - leastExponent).toNat <<< 52 + _) _ = _
  rw [add_sub_cancel_right, Int.toNat_natCast, Nat.shiftLeft_eq]
  rfl

/-- **The nearest number, and the even one of two equally near.** -/
theorem rounds_nearestBits (n : ℕ) {d : ℕ} (hd : 0 < d) : Rounds (n / d) (nearestBits n d) := by
  rcases Nat.eq_zero_or_pos n with rfl | hn
  · rw [Nat.cast_zero, zero_div]
    exact rounds_zero
  obtain ⟨hleast, hhigh, hlow⟩ := unitExponent_spec hn hd
  obtain ⟨s, hs⟩ : ∃ s : ℕ, unitExponent n d = s + leastExponent :=
    ⟨(unitExponent n d - leastExponent).toNat, by omega⟩
  rw [nearestBits_eq hn hs]
  rw [hs] at hhigh hlow
  obtain ⟨hle, heven⟩ := divNearest_spec (inUnits n d (s + leastExponent)).1
    (inUnits_pos n hd (s + leastExponent))
  rw [inUnits_div n hd] at hle heven
  have hy : (n : ℚ) / d = n / d / 2 ^ (s + leastExponent) * 2 ^ (s + leastExponent) :=
    (div_mul_cancel₀ _ (by positivity)).symm
  rw [hy]
  generalize (n : ℚ) / d / 2 ^ (s + leastExponent) = y at hhigh hlow hle heven
  generalize divNearest (inUnits n d (s + leastExponent)).1
    (inUnits n d (s + leastExponent)).2 = r at hle heven
  have hlow : s = 0 ∨ 2 ^ 52 ≤ y := hlow.imp_left (by omega)
  have hr : r ≤ 2 ^ 53 := by
    have : (r : ℚ) < 2 ^ 53 + 1 := by linarith [(abs_le.1 hle).2]
    exact Nat.lt_succ_iff.1 (by exact_mod_cast this)
  have hr' : s = 0 ∨ 2 ^ 52 ≤ r := hlow.imp_right fun hy => by
    have : (2 : ℚ) ^ 52 < r + 1 := by linarith [(abs_le.1 hle).1]
    exact Nat.lt_succ_iff.1 (by exact_mod_cast this)
  have habove := above_of_near hr hr' hlow hle heven
  have hbelow := below_of_near hr hr' hle heven
  rcases le_total (s * 2 ^ 52 + r) infinityBits with h | h
  · rw [min_eq_left h]
    exact rounds_iff.2 ⟨h, habove, fun _ => hbelow⟩
  · rw [min_eq_right h]
    exact rounds_iff.2 ⟨le_rfl, habove.of_le h (by decide), fun hlt => absurd hlt (lt_irrefl _)⟩

theorem nearestBits_eq_iff {n d b : ℕ} (hd : 0 < d) : nearestBits n d = b ↔ Rounds (n / d) b :=
  ⟨fun h => h ▸ rounds_nearestBits n hd, fun h => (rounds_nearestBits n hd).unique h⟩

/-! ## Bits of finite numbers -/

theorem shapeOfBits_eq {b : ℕ} (hb : b < infinityBits) :
    shapeOfBits b = .finite (significand b) (scale b + leastExponent) := by
  have hfield : b >>> 52 % 1 <<< 11 = b / 2 ^ 52 := by
    rw [Nat.shiftRight_eq_div_pow, Nat.shiftLeft_eq]
    rw [infinityBits, Nat.shiftLeft_eq] at hb
    omega
  rw [infinityBits, Nat.shiftLeft_eq] at hb
  unfold shapeOfBits significand scale
  rw [hfield, Nat.shiftLeft_eq]
  dsimp only
  split_ifs with h₁ h₂ h₃
  · omega
  · omega
  · rw [Shape.finite.injEq]
    omega
  · rw [Shape.finite.injEq]
    omega

end ExprScript.Number
