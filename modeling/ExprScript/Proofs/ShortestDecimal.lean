import ExprScript.Number.Shortest
import ExprScript.Proofs.Rounding

/-!
# The shortest decimal that reads back

A number is written as the decimal that is a multiple of the greatest power of ten among those that
round to the number, and the nearest of these. The decimals that round to a number are those in an
interval around it, and the search for one goes down the powers of ten: from the top one, above
which every multiple is too large, through twenty, the last of which is finer than the interval.

* `Decimal.Abbreviates`: a decimal is the one written for a number; `Decimal.Abbreviates.unique`.
* `contains_iff`: the interval of a number holds the decimals that round to it.
* `Picks`, `picks_of_pick?`, `not_rounds_of_pick?`: the choice on one grid.
* `not_rounds_of_top_lt`, `pick?_ne_none`: the bounds of the search.
* **`abbreviates_shortest`**: the search finds the decimal.
-/

namespace ExprScript.Number

/-! ## Decimals -/

/-- The number that a decimal stands for. -/
def Decimal.value (d : Decimal) : ℚ := d.digits * 10 ^ d.exponent

/-- The decimal is the one written for the number with the bits `b`: it rounds to the number, no
multiple of a greater power of ten does, and of the multiples of its own power of ten that do it is
the nearest, the larger of two equally near. -/
structure Decimal.Abbreviates (d : Decimal) (b : ℕ) : Prop where
  rounds : Rounds d.value b
  coarsest : ∀ e : Decimal, d.exponent < e.exponent → ¬ Rounds e.value b
  nearest : ∀ e : Decimal, e.exponent = d.exponent → Rounds e.value b →
    |d.value - magnitude b| ≤ |e.value - magnitude b|
  larger : ∀ e : Decimal, e.exponent = d.exponent → Rounds e.value b →
    |e.value - magnitude b| = |d.value - magnitude b| → e.digits ≤ d.digits

theorem Decimal.Abbreviates.unique {d e : Decimal} {b : ℕ} (hd : d.Abbreviates b)
    (he : e.Abbreviates b) : d = e := by
  have hexp : e.exponent = d.exponent :=
    le_antisymm (not_lt.1 fun h => hd.coarsest e h he.rounds)
      (not_lt.1 fun h => he.coarsest d h hd.rounds)
  have hdist : |d.value - magnitude b| = |e.value - magnitude b| :=
    le_antisymm (hd.nearest e hexp he.rounds) (he.nearest d hexp.symm hd.rounds)
  have hdigits : d.digits = e.digits :=
    le_antisymm (he.larger d hexp.symm hd.rounds hdist) (hd.larger e hexp he.rounds hdist.symm)
  cases d
  cases e
  simp_all

/-! ## Comparing decimals with binary numbers -/

section Scale

variable (k unit : ℤ)

theorem commonScale_pos : 0 < (commonScale k unit).1 ∧ 0 < (commonScale k unit).2 := by
  have hten (n : ℕ) : 0 < Nat.pow 10 n := Nat.pow_pos (by norm_num)
  simp only [commonScale, Nat.shiftLeft_eq]
  exact ⟨Nat.mul_pos (hten _) (by positivity), Nat.mul_pos (hten _) (by positivity)⟩

theorem commonScale_mul :
    (10 : ℚ) ^ k * (commonScale k unit).2 = (commonScale k unit).1 * 2 ^ unit := by
  have hk : (10 : ℚ) ^ k * 10 ^ (-k).toNat = 10 ^ k.toNat := by
    rw [← zpow_natCast, ← zpow_natCast, ← zpow_add₀ (by norm_num)]
    congr 1
    omega
  have hunit : (2 : ℚ) ^ (-unit).toNat * 2 ^ unit = 2 ^ unit.toNat := by
    rw [← zpow_natCast, ← zpow_natCast, ← zpow_add₀ two_ne_zero]
    congr 1
    omega
  simp only [commonScale, Nat.shiftLeft_eq, Nat.pow_eq]
  push_cast
  rw [← mul_assoc, hk, mul_assoc, hunit]

variable (d n : ℕ)

/-- A decimal and a binary number are whole numbers of a common unit, of which `c` make one. -/
theorem exists_commonScale :
    ∃ c : ℚ, 0 < c ∧ (d * (commonScale k unit).1 : ℕ) = c * (d * 10 ^ k) ∧
      (n * (commonScale k unit).2 : ℕ) = c * (n * 2 ^ unit) := by
  have hpos : (0 : ℚ) < (commonScale k unit).2 := by exact_mod_cast (commonScale_pos k unit).2
  refine ⟨(commonScale k unit).2 / 2 ^ unit, by positivity, ?_, ?_⟩
  · have hscale : ((commonScale k unit).1 : ℚ) = 10 ^ k * (commonScale k unit).2 / 2 ^ unit := by
      rw [commonScale_mul, mul_div_cancel_right₀ _ (by positivity)]
    push_cast
    rw [hscale]
    ring
  · push_cast
    field_simp

theorem commonScale_lt_iff :
    d * (commonScale k unit).1 < n * (commonScale k unit).2 ↔ (d : ℚ) * 10 ^ k < n * 2 ^ unit := by
  obtain ⟨c, hc, hd, hn⟩ := exists_commonScale k unit d n
  rw [← Nat.cast_lt (α := ℚ), hd, hn, mul_lt_mul_iff_right₀ hc]

theorem lt_commonScale_iff :
    n * (commonScale k unit).2 < d * (commonScale k unit).1 ↔ n * 2 ^ unit < (d : ℚ) * 10 ^ k := by
  obtain ⟨c, hc, hd, hn⟩ := exists_commonScale k unit d n
  rw [← Nat.cast_lt (α := ℚ), hd, hn, mul_lt_mul_iff_right₀ hc]

end Scale

/-! ## The interval of a number -/

/-- The interval around the number with these bits. -/
def neighbourhood (b : ℕ) : Neighbourhood := .of (significand b) (scale b + leastExponent)

section Interval

variable {b : ℕ}

theorem unit_neighbourhood : (neighbourhood b).unit = scale b + leastExponent - 2 := rfl

theorem zpow_unit (b : ℕ) :
    (2 : ℚ) ^ (scale b + leastExponent) = 4 * 2 ^ (neighbourhood b).unit := by
  rw [unit_neighbourhood, zpow_sub₀ two_ne_zero]
  norm_num
  ring

theorem magnitude_eq_middle (b : ℕ) :
    magnitude b = (neighbourhood b).middle * 2 ^ (neighbourhood b).unit := by
  have hmiddle : (neighbourhood b).middle = 4 * significand b := rfl
  rw [magnitude, zpow_unit, hmiddle]
  push_cast
  ring

theorem middle_above (b : ℕ) :
    magnitude b + magnitude (b + 1) =
      2 * ((neighbourhood b).high * 2 ^ (neighbourhood b).unit) := by
  have hhigh : (neighbourhood b).high = (neighbourhood b).middle + 2 := rfl
  rw [magnitude_succ, zpow_unit, magnitude_eq_middle, hhigh]
  push_cast
  ring

theorem significand_pos (hb : 0 < b) : 0 < significand b := by
  have := significand_spec b
  omega

theorem middle_below {c : ℕ} (hc : c + 1 = b) :
    magnitude c + magnitude b = 2 * ((neighbourhood b).low * 2 ^ (neighbourhood b).unit) := by
  obtain ⟨hb, hr, hs⟩ := significand_spec b
  have hmiddle : (neighbourhood b).middle = 4 * significand b := rfl
  have hlow : (neighbourhood b).low = 4 * significand b -
      if significand b = 2 ^ 52 ∧ leastExponent < scale b + leastExponent then 1 else 2 := rfl
  rw [magnitude_eq_middle b, hmiddle]
  by_cases h : significand b = 2 ^ 52 ∧ 0 < scale b
  · -- The number is a power of two, and the one before it is half a unit away.
    obtain ⟨t, ht⟩ : ∃ t, scale b = t + 1 := ⟨scale b - 1, by omega⟩
    obtain rfl : c = t * 2 ^ 52 + (2 ^ 53 - 1) := by omega
    have hunit : (2 : ℚ) ^ (t + leastExponent) = 2 * 2 ^ (neighbourhood b).unit := by
      have hexp : (t : ℤ) + leastExponent = (neighbourhood b).unit + 1 := by
        rw [unit_neighbourhood, ht]
        push_cast
        ring
      rw [hexp, zpow_add_one₀ two_ne_zero]
      ring
    rw [if_pos (by omega), h.1] at hlow
    rw [magnitude_add (by omega) (by omega), hunit, hlow, h.1]
    norm_num
    ring
  · obtain rfl : c = scale b * 2 ^ 52 + (significand b - 1) := by omega
    rw [if_neg (by omega)] at hlow
    rw [magnitude_add (by omega) (by omega), zpow_unit, hlow, Nat.cast_sub (by omega),
      Nat.cast_sub (by omega)]
    push_cast
    ring

theorem above_iff (hb : 0 < b) (v : ℚ) :
    Above v b ↔ (neighbourhood b).low * 2 ^ (neighbourhood b).unit ≤ v ∧
      ((neighbourhood b).low * 2 ^ (neighbourhood b).unit = v → Even b) := by
  constructor
  · intro h
    obtain ⟨c, hc⟩ : ∃ c, c + 1 = b := ⟨b - 1, by omega⟩
    obtain ⟨hle, heven⟩ := h c hc
    rw [middle_below hc] at hle heven
    exact ⟨by linarith, fun heq => heven (by rw [heq])⟩
  · rintro ⟨hle, heven⟩ c hc
    rw [middle_below hc]
    exact ⟨by linarith, fun heq => heven (by linarith)⟩

theorem below_iff (v : ℚ) :
    Below v b ↔ v ≤ (neighbourhood b).high * 2 ^ (neighbourhood b).unit ∧
      (v = (neighbourhood b).high * 2 ^ (neighbourhood b).unit → Even b) := by
  rw [Below, middle_above]
  constructor
  · rintro ⟨hle, heven⟩
    exact ⟨by linarith, fun heq => heven (by rw [heq])⟩
  · rintro ⟨hle, heven⟩
    exact ⟨by linarith, fun heq => heven (by linarith)⟩

/-- **The interval of a number holds the decimals that round to it.** -/
theorem contains_iff (hb : 0 < b) (hb' : b < infinityBits) (d : ℕ) (k : ℤ) :
    (neighbourhood b).contains d k = true ↔ Rounds (d * 10 ^ k) b := by
  have hclosed : (neighbourhood b).closed = true ↔ Even b := by
    have hb := significand_spec b
    change decide (significand b % 2 = 0) = true ↔ Even b
    rw [decide_eq_true_iff, Nat.even_iff]
    omega
  have hrounds : Rounds (d * 10 ^ k) b ↔ Above (d * 10 ^ k) b ∧ Below (d * 10 ^ k) b := by
    rw [rounds_iff]
    exact ⟨fun h => ⟨h.2.1, h.2.2 hb'⟩, fun h => ⟨hb'.le, h.1, fun _ => h.2⟩⟩
  rw [hrounds, above_iff hb, below_iff]
  simp only [Neighbourhood.contains, hclosed]
  by_cases heven : Even b
  · simp [heven, ← not_lt, commonScale_lt_iff, lt_commonScale_iff]
  · simp [heven, commonScale_lt_iff, lt_commonScale_iff, ← lt_iff_le_and_ne]

/-! ## The choice on one grid -/

/-- The last point of the grid `10 ^ k` that is not above the middle of the interval. -/
def Neighbourhood.last (v : Neighbourhood) (k : ℤ) : ℕ :=
  v.middle * (commonScale k v.unit).2 / (commonScale k v.unit).1

/-- The last point of the grid `10 ^ k` that is not above the number. -/
def lastBelow (b : ℕ) (k : ℤ) : ℕ := (neighbourhood b).last k

/-- How the point is chosen. -/
theorem Neighbourhood.pick?_cases (v : Neighbourhood) (k : ℤ) :
    v.contains (v.last k) k = false ∧ v.contains (v.last k + 1) k = false ∧ v.pick? k = none ∨
    v.contains (v.last k) k = true ∧ v.pick? k = some (v.last k) ∧
      (v.contains (v.last k + 1) k = true →
        2 * v.middle * (commonScale k v.unit).2 < (2 * v.last k + 1) * (commonScale k v.unit).1) ∨
    v.contains (v.last k + 1) k = true ∧ v.pick? k = some (v.last k + 1) ∧
      (v.contains (v.last k) k = true →
        (2 * v.last k + 1) * (commonScale k v.unit).1 ≤
          2 * v.middle * (commonScale k v.unit).2) := by
  have hlast : v.middle * (commonScale k v.unit).2 / (commonScale k v.unit).1 = v.last k := rfl
  simp only [pick?, hlast, ← mul_assoc]
  cases h₁ : v.contains (v.last k) k <;> cases h₂ : v.contains (v.last k + 1) k
  · simp
  · simp
  · simp
  · by_cases h : 2 * v.middle * (commonScale k v.unit).2 <
        (2 * v.last k + 1) * (commonScale k v.unit).1
    · simp [h]
    · simp [h, not_lt.1 h]

theorem lastBelow_spec (b : ℕ) (k : ℤ) :
    lastBelow b k * 10 ^ k ≤ magnitude b ∧ magnitude b < (lastBelow b k + 1 : ℕ) * 10 ^ k := by
  have hpos := (commonScale_pos k (neighbourhood b).unit).1
  rw [magnitude_eq_middle]
  constructor
  · rw [← not_lt, ← lt_commonScale_iff, not_lt]
    exact Nat.div_mul_le_self _ _
  · rw [← lt_commonScale_iff]
    exact Nat.lt_mul_of_div_lt (Nat.lt_succ_self _) hpos

theorem abs_sub_of_le {d : ℕ} {k : ℤ} (hd : d ≤ lastBelow b k) :
    |(d : ℚ) * 10 ^ k - magnitude b| = magnitude b - d * 10 ^ k := by
  have hle : (d : ℚ) * 10 ^ k ≤ lastBelow b k * 10 ^ k := by gcongr
  rw [abs_sub_comm, abs_of_nonneg]
  linarith [(lastBelow_spec b k).1]

theorem abs_sub_of_lt {d : ℕ} {k : ℤ} (hd : lastBelow b k < d) :
    |(d : ℚ) * 10 ^ k - magnitude b| = d * 10 ^ k - magnitude b := by
  have hle : ((lastBelow b k + 1 : ℕ) : ℚ) * 10 ^ k ≤ d * 10 ^ k := by gcongr; exact hd
  rw [abs_of_nonneg]
  linarith [(lastBelow_spec b k).2]

/-- If a grid has points that round to a number, then one of its two points next to the number
does. -/
theorem rounds_lastBelow {d : ℕ} {k : ℤ} (hd : d ≤ lastBelow b k) (h : Rounds (d * 10 ^ k) b) :
    Rounds (lastBelow b k * 10 ^ k) b := by
  obtain ⟨hle, habove, -⟩ := rounds_iff.1 h
  refine rounds_iff.2 ⟨hle, habove.mono (by gcongr), fun _ => ?_⟩
  exact (below_magnitude b).mono (lastBelow_spec b k).1

theorem rounds_succ_lastBelow {d : ℕ} {k : ℤ} (hd : lastBelow b k < d)
    (h : Rounds (d * 10 ^ k) b) : Rounds ((lastBelow b k + 1 : ℕ) * 10 ^ k) b := by
  obtain ⟨hle, -, hbelow⟩ := rounds_iff.1 h
  refine rounds_iff.2 ⟨hle, (above_magnitude b).mono (lastBelow_spec b k).2.le, fun hb => ?_⟩
  exact (hbelow hb).mono (by gcongr; exact hd)

/-- The point `p` of the grid `10 ^ k` is the one chosen for the number with the bits `b`. -/
structure Picks (b : ℕ) (k : ℤ) (p : ℕ) : Prop where
  rounds : Rounds (p * 10 ^ k) b
  nearest : ∀ d : ℕ, Rounds (d * 10 ^ k) b →
    |(p : ℚ) * 10 ^ k - magnitude b| ≤ |d * 10 ^ k - magnitude b|
  larger : ∀ d : ℕ, Rounds (d * 10 ^ k) b →
    |(d : ℚ) * 10 ^ k - magnitude b| = |p * 10 ^ k - magnitude b| → d ≤ p

theorem picks_lastBelow {k : ℤ} (h : Rounds (lastBelow b k * 10 ^ k) b)
    (hnext : Rounds ((lastBelow b k + 1 : ℕ) * 10 ^ k) b →
      2 * magnitude b < (2 * lastBelow b k + 1 : ℕ) * 10 ^ k) : Picks b k (lastBelow b k) := by
  have hless (d : ℕ) (hd : Rounds (d * 10 ^ k) b) (hlt : lastBelow b k < d) :
      |(lastBelow b k : ℚ) * 10 ^ k - magnitude b| < |d * 10 ^ k - magnitude b| := by
    have hmiddle := hnext (rounds_succ_lastBelow hlt hd)
    have hle : ((lastBelow b k + 1 : ℕ) : ℚ) * 10 ^ k ≤ d * 10 ^ k := by gcongr; exact hlt
    rw [abs_sub_of_le le_rfl, abs_sub_of_lt hlt]
    push_cast at hmiddle hle
    linarith
  refine ⟨h, fun d hd => ?_, fun d hd heq => ?_⟩
  · rcases le_or_gt d (lastBelow b k) with hle | hlt
    · have hmul : (d : ℚ) * 10 ^ k ≤ lastBelow b k * 10 ^ k := by gcongr
      rw [abs_sub_of_le le_rfl, abs_sub_of_le hle]
      linarith
    · exact (hless d hd hlt).le
  · by_contra hlt
    exact (hless d hd (not_le.1 hlt)).ne' heq

theorem picks_succ_lastBelow {k : ℤ} (h : Rounds ((lastBelow b k + 1 : ℕ) * 10 ^ k) b)
    (hlast : Rounds (lastBelow b k * 10 ^ k) b →
      (2 * lastBelow b k + 1 : ℕ) * 10 ^ k ≤ 2 * magnitude b) : Picks b k (lastBelow b k + 1) := by
  refine ⟨h, fun d hd => ?_, fun d hd heq => ?_⟩
  · rw [abs_sub_of_lt (Nat.lt_succ_self _)]
    rcases le_or_gt d (lastBelow b k) with hle | hlt
    · have hmiddle := hlast (rounds_lastBelow hle hd)
      have hmul : (d : ℚ) * 10 ^ k ≤ lastBelow b k * 10 ^ k := by gcongr
      rw [abs_sub_of_le hle]
      push_cast at hmiddle ⊢
      linarith
    · have hmul : ((lastBelow b k + 1 : ℕ) : ℚ) * 10 ^ k ≤ d * 10 ^ k := by gcongr; exact hlt
      rw [abs_sub_of_lt hlt]
      linarith
  · by_contra hlt
    have hlt : lastBelow b k + 1 < d := not_le.1 hlt
    rw [abs_sub_of_lt (by omega), abs_sub_of_lt (Nat.lt_succ_self _)] at heq
    have hmul : ((lastBelow b k + 1 : ℕ) : ℚ) * 10 ^ k < d * 10 ^ k := by gcongr
    linarith

theorem near_iff (b : ℕ) (k : ℤ) :
    2 * (neighbourhood b).middle * (commonScale k (neighbourhood b).unit).2 <
        (2 * lastBelow b k + 1) * (commonScale k (neighbourhood b).unit).1 ↔
      2 * magnitude b < (2 * lastBelow b k + 1 : ℕ) * 10 ^ k := by
  rw [lt_commonScale_iff, magnitude_eq_middle]
  push_cast
  rw [mul_assoc]

theorem not_rounds_of_pick? (hb : 0 < b) (hb' : b < infinityBits) {k : ℤ}
    (h : (neighbourhood b).pick? k = none) (d : ℕ) : ¬ Rounds (d * 10 ^ k) b := by
  intro hd
  rcases (neighbourhood b).pick?_cases k with ⟨hlast, hnext, -⟩ | ⟨-, hp, -⟩ | ⟨-, hp, -⟩
  · rcases le_or_gt d (lastBelow b k) with hle | hlt
    · have hin := (contains_iff hb hb' _ k).2 (rounds_lastBelow hle hd)
      exact Bool.false_ne_true (hlast.symm.trans hin)
    · have hin := (contains_iff hb hb' _ k).2 (rounds_succ_lastBelow hlt hd)
      exact Bool.false_ne_true (hnext.symm.trans hin)
  · exact absurd (h.symm.trans hp) (by simp)
  · exact absurd (h.symm.trans hp) (by simp)

theorem picks_of_pick? (hb : 0 < b) (hb' : b < infinityBits) {k : ℤ} {p : ℕ}
    (h : (neighbourhood b).pick? k = some p) : Picks b k p := by
  rcases (neighbourhood b).pick?_cases k with ⟨-, -, hp⟩ | ⟨hlast, hp, hnear⟩ | ⟨hnext, hp, hnear⟩
  · exact absurd (h.symm.trans hp) (by simp)
  · cases h.symm.trans hp
    exact picks_lastBelow ((contains_iff hb hb' _ k).1 hlast) fun hnext =>
      (near_iff b k).1 (hnear ((contains_iff hb hb' _ k).2 hnext))
  · cases h.symm.trans hp
    refine picks_succ_lastBelow ((contains_iff hb hb' _ k).1 hnext) fun hlast => ?_
    exact not_lt.1 (mt (near_iff b k).2 (not_lt.2 (hnear ((contains_iff hb hb' _ k).2 hlast))))

end Interval

/-! ## The coarsest grid -/

/-- The logarithm of two lies between `59 / 196` and `28 / 93`, close enough to `0.30103` for the
exponents of the format. -/
theorem ten_zpow_lt_two_zpow {k e : ℤ} (he : -1100 ≤ e ∧ e ≤ 1100)
    (h : 100000 * k + 20000 ≤ 30103 * e) : (10 : ℚ) ^ k < 2 ^ e := by
  rcases le_or_gt 0 e with hpos | hneg
  · obtain ⟨n, rfl⟩ : ∃ n : ℕ, e = n := ⟨e.toNat, by omega⟩
    refine lt_of_pow_lt_pow_left₀ 196 (by positivity) ?_
    calc ((10 : ℚ) ^ k) ^ 196 = 10 ^ (k * 196) := by rw [zpow_mul]; norm_cast
      _ < 10 ^ ((59 * n : ℕ) : ℤ) := zpow_lt_zpow_right₀ (by norm_num) (by push_cast; omega)
      _ = (10 ^ 59) ^ n := by rw [zpow_natCast, pow_mul]
      _ ≤ (2 ^ 196) ^ n := pow_le_pow_left₀ (by norm_num) (by norm_num) n
      _ = (2 ^ (n : ℤ)) ^ 196 := by rw [zpow_natCast, ← pow_mul, ← pow_mul, mul_comm]
  · obtain ⟨n, rfl⟩ : ∃ n : ℕ, e = -n := ⟨(-e).toNat, by omega⟩
    refine lt_of_pow_lt_pow_left₀ 93 (by positivity) ?_
    calc ((10 : ℚ) ^ k) ^ 93 = 10 ^ (k * 93) := by rw [zpow_mul]; norm_cast
      _ < 10 ^ (-(28 * n : ℕ) : ℤ) := zpow_lt_zpow_right₀ (by norm_num) (by push_cast; omega)
      _ = ((10 ^ 28) ^ n)⁻¹ := by rw [zpow_neg, zpow_natCast, pow_mul]
      _ ≤ ((2 ^ 93) ^ n)⁻¹ :=
        inv_anti₀ (by positivity) (pow_le_pow_left₀ (by norm_num) (by norm_num) n)
      _ = (2 ^ (-n : ℤ)) ^ 93 := by
        rw [zpow_neg, zpow_natCast, inv_pow, ← pow_mul, ← pow_mul, mul_comm]

theorem two_zpow_lt_ten_zpow {k e : ℤ} (he : -1100 ≤ e ∧ e ≤ 1100)
    (h : 30103 * e + 20000 ≤ 100000 * k) : (2 : ℚ) ^ e < 10 ^ k := by
  have hinv := ten_zpow_lt_two_zpow (k := -k) (e := -e) (by omega) (by omega)
  rw [zpow_neg, zpow_neg] at hinv
  exact (inv_lt_inv₀ (by positivity) (by positivity)).1 hinv

section Coarsest

variable {b : ℕ}

theorem scale_le (hb : b < infinityBits) : scale b ≤ 2045 := by
  rw [infinityBits, Nat.shiftLeft_eq] at hb
  unfold scale
  omega

theorem log2_middle (hb : 0 < b) :
    2 ≤ (neighbourhood b).middle.log2 ∧ (neighbourhood b).middle.log2 ≤ 54 ∧
      (neighbourhood b).high ≤ 2 ^ ((neighbourhood b).middle.log2 + 1) := by
  have hpos := significand_pos hb
  obtain ⟨-, hlt, -⟩ := significand_spec b
  have hmiddle : (neighbourhood b).middle = 4 * significand b := rfl
  have hhigh : (neighbourhood b).high = 4 * significand b + 2 := rfl
  rw [hmiddle, hhigh]
  have hlow : 2 ≤ (4 * significand b).log2 := (Nat.le_log2 (by omega)).2 (by omega)
  refine ⟨hlow, Nat.lt_succ_iff.1 ((Nat.log2_lt (by omega)).2 (by omega)), ?_⟩
  obtain ⟨l, hl⟩ : ∃ l, (4 * significand b).log2 = l + 2 := ⟨(4 * significand b).log2 - 2, by omega⟩
  have hself := Nat.lt_log2_self (n := 4 * significand b)
  rw [hl] at hself ⊢
  omega

theorem magnitude_pos (hb : 0 < b) : 0 < magnitude b := by
  have hlt := magnitude_strictMono hb
  rwa [magnitude_zero] at hlt

theorem pos_of_above (hb : 0 < b) {v : ℚ} (h : Above v b) : 0 < v := by
  obtain ⟨c, rfl⟩ : ∃ c, c + 1 = b := ⟨b - 1, by omega⟩
  have hc : 0 ≤ magnitude c := magnitude_zero ▸ magnitude_strictMono.monotone (Nat.zero_le c)
  linarith [(h c rfl).1, magnitude_pos hb]

/-- Above the top exponent every point is too large. -/
theorem not_rounds_of_top_lt (hb : 0 < b) (hb' : b < infinityBits) {k : ℤ}
    (hk : (neighbourhood b).topExponent < k) (d : ℕ) : ¬ Rounds (d * 10 ^ k) b := by
  intro h
  obtain ⟨-, habove, hbelow⟩ := rounds_iff.1 h
  obtain ⟨hlow, hhigh, hle⟩ := log2_middle hb
  have hscale := scale_le hb'
  have hd : 1 ≤ d := Nat.one_le_iff_ne_zero.2 fun hd => by
    have := pos_of_above hb habove
    simp [hd] at this
  have hpow :
      (2 : ℚ) ^ ((neighbourhood b).middle.log2 + 1 + (neighbourhood b).unit : ℤ) < 10 ^ k := by
    rw [Neighbourhood.topExponent] at hk
    rw [unit_neighbourhood, leastExponent] at hk ⊢
    exact two_zpow_lt_ten_zpow (by omega) (by omega)
  have hten : (10 : ℚ) ^ k ≤ d * 10 ^ k :=
    le_mul_of_one_le_left (by positivity) (by exact_mod_cast hd)
  have htop : ((neighbourhood b).high : ℚ) * 2 ^ (neighbourhood b).unit ≤
      2 ^ ((neighbourhood b).middle.log2 + 1 + (neighbourhood b).unit : ℤ) := by
    rw [zpow_add₀ two_ne_zero]
    gcongr
    exact_mod_cast hle
  linarith [((below_iff _).1 (hbelow hb')).1]

/-- The twentieth grid from the top is finer than the interval. -/
theorem pick?_ne_none (hb : 0 < b) (hb' : b < infinityBits) :
    (neighbourhood b).pick? ((neighbourhood b).topExponent - 19) ≠ none := by
  intro h
  generalize hk : (neighbourhood b).topExponent - 19 = k at h
  refine not_rounds_of_pick? hb hb' h (lastBelow b k + 1) ?_
  obtain ⟨hlow, hhigh, -⟩ := log2_middle hb
  obtain ⟨hlast, hnext⟩ := lastBelow_spec b k
  have hscale := scale_le hb'
  have hpow : (10 : ℚ) ^ k < 2 ^ ((neighbourhood b).unit + 1) := by
    rw [Neighbourhood.topExponent] at hk
    rw [unit_neighbourhood, leastExponent] at hk ⊢
    exact ten_zpow_lt_two_zpow (by omega) (by omega)
  have hstep : ((lastBelow b k + 1 : ℕ) : ℚ) * 10 ^ k <
      (neighbourhood b).high * 2 ^ (neighbourhood b).unit := by
    have hhigh : (neighbourhood b).high = (neighbourhood b).middle + 2 := rfl
    rw [zpow_add_one₀ two_ne_zero] at hpow
    rw [magnitude_eq_middle] at hlast
    rw [hhigh]
    push_cast
    linarith
  exact rounds_iff.2 ⟨hb'.le, (above_magnitude b).mono hnext.le,
    fun _ => (below_iff _).2 ⟨hstep.le, fun heq => absurd heq hstep.ne⟩⟩

/-- The grids that are tried, from the top one down. -/
def grids (top : ℤ) : List ℤ := (List.range 20).map fun i : ℕ => top - (i : ℤ)

theorem mem_grids {top k : ℤ} : k ∈ grids top ↔ top - 19 ≤ k ∧ k ≤ top := by
  simp only [grids, List.mem_map, List.mem_range]
  constructor
  · rintro ⟨i, hi, rfl⟩
    omega
  · rintro ⟨hlow, hhigh⟩
    exact ⟨(top - k).toNat, by omega, by omega⟩

theorem pairwise_grids (top : ℤ) : (grids top).Pairwise (· > ·) := by
  rw [grids, List.pairwise_map]
  exact List.pairwise_lt_range.imp fun h => by omega

/-- The search goes down the grids and stops at the first one with a point. -/
theorem exists_shortest (hb : 0 < b) (hb' : b < infinityBits) :
    ∃ d, shortest (significand b) (scale b + leastExponent) = d ∧
      (neighbourhood b).pick? d.exponent = some d.digits ∧
      ∀ k, d.exponent < k → k ≤ (neighbourhood b).topExponent →
        (neighbourhood b).pick? k = none := by
  set f : ℤ → Option Decimal := fun k => ((neighbourhood b).pick? k).map fun d => ⟨d, k⟩ with hf
  have hshortest : shortest (significand b) (scale b + leastExponent) =
      ((grids (neighbourhood b).topExponent).findSome? f).getD ⟨0, 0⟩ := rfl
  rw [hshortest]
  cases hfind : (grids (neighbourhood b).topExponent).findSome? f with
  | none =>
    have := List.findSome?_eq_none_iff.1 hfind ((neighbourhood b).topExponent - 19)
      (mem_grids.2 (by omega))
    exact absurd (Option.map_eq_none_iff.1 this) (pick?_ne_none hb hb')
  | some d =>
    obtain ⟨before, k, after, hgrids, hk, hbefore⟩ := List.findSome?_eq_some_iff.1 hfind
    obtain ⟨p, hp, rfl⟩ := Option.map_eq_some_iff.1 hk
    refine ⟨⟨p, k⟩, rfl, hp, fun k' hlt hle => ?_⟩
    have hlt : k < k' := hlt
    have hpairwise := pairwise_grids (neighbourhood b).topExponent
    have hmem : k' ∈ grids (neighbourhood b).topExponent := by
      have hmem : k ∈ grids (neighbourhood b).topExponent := by simp [hgrids]
      rw [mem_grids] at hmem ⊢
      exact ⟨by omega, hle⟩
    rw [hgrids] at hpairwise hmem
    -- The grids descend, so a grid above the one that was found stands before it.
    have hafter := (List.pairwise_cons.1 (List.pairwise_append.1 hpairwise).2.1).1
    rcases List.mem_append.1 hmem with h | h
    · exact Option.map_eq_none_iff.1 (hbefore k' h)
    · rcases List.mem_cons.1 h with rfl | h
      · exact absurd hlt (lt_irrefl _)
      · exact absurd hlt (hafter k' h).asymm

/-- **The decimal computed for a number is the shortest that reads back as it.** -/
theorem abbreviates_shortest (hb : 0 < b) (hb' : b < infinityBits) :
    (shortest (significand b) (scale b + leastExponent)).Abbreviates b := by
  obtain ⟨d, hd, hpick, hnone⟩ := exists_shortest hb hb'
  have hp := picks_of_pick? hb hb' hpick
  rw [hd]
  refine ⟨hp.rounds, fun e he => ?_, fun e he => ?_, fun e he => ?_⟩
  · rcases le_or_gt e.exponent (neighbourhood b).topExponent with hle | hlt
    · exact not_rounds_of_pick? hb hb' (hnone _ he hle) _
    · exact not_rounds_of_top_lt hb hb' hlt _
  · rw [Decimal.value, Decimal.value, he]
    exact hp.nearest _
  · rw [Decimal.value, Decimal.value, he]
    exact hp.larger _

end Coarsest

end ExprScript.Number
