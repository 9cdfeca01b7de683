import ExprScript.Number.Numeral
import Mathlib.Algebra.Order.Sub.Basic
import Mathlib.Algebra.Group.Nat.Defs

/-!
# The sign of a floating-point number

Negation changes the sign bit and nothing else, so it is an involution, also on zeros and
infinities. Not-a-number has one pattern of bits and no sign.

* `fields`: a number from its sign, exponent field and fraction; `exists_fields`.
* `denoted`: what these fields denote; `unpack_fields`.
* `pack_denoted`: a number that is not not-a-number is its own rounding.
* **`neg_neg`**: negation is an involution.
* `isNegative_of_le`, `isNegative_neg_of_le`: the sign of a number read from digits, and of its
  negation.
-/

namespace ExprScript.Number

open Float.Model Float.Model.UnpackedFloat

/-- The bits with this sign, exponent field and fraction. -/
def fields (s : Sign) (e : BitVec 11) (m : BitVec 52) : BitVec 64 :=
  packComponents Format.binary64 s e m

theorem toNat_fields (s : Sign) (e : BitVec 11) (m : BitVec 52) :
    (fields s e m).toNat = s.toBitVec.toNat * 2 ^ 63 + e.toNat * 2 ^ 52 + m.toNat := by
  have he := e.isLt
  have hm := m.isLt
  change (s.toBitVec ++ e ++ m).toNat = _
  rw [BitVec.toNat_append, BitVec.toNat_append, ← Nat.shiftLeft_add_eq_or_of_lt he,
    ← Nat.shiftLeft_add_eq_or_of_lt hm, Nat.shiftLeft_eq, Nat.shiftLeft_eq]
  omega

theorem sign_ofBitVec_toBitVec (s : Sign) : Sign.ofBitVec s.toBitVec = s := by
  cases s <;> rfl

theorem sign_neg_neg (s : Sign) : - -s = s := by cases s <;> rfl

theorem unpackSign_fields (s : Sign) (e : BitVec 11) (m : BitVec 52) :
    @unpackSign Format.binary64 (fields s e m) = s.toBitVec := by
  have h := toNat_fields s e m
  have he := e.isLt
  have hm := m.isLt
  apply BitVec.eq_of_toNat_eq
  change ((fields s e m).extractLsb' 63 1).toNat = _
  rw [BitVec.extractLsb'_toNat, Nat.shiftRight_eq_div_pow, h]
  cases s with
  | positive =>
    have : Sign.positive.toBitVec.toNat = 0 := rfl
    omega
  | negative =>
    have : Sign.negative.toBitVec.toNat = 1 := rfl
    omega

theorem unpackExponent_fields (s : Sign) (e : BitVec 11) (m : BitVec 52) :
    @unpackExponent Format.binary64 (fields s e m) = e := unpackExponent_packComponents

theorem unpackMantissa_fields (s : Sign) (e : BitVec 11) (m : BitVec 52) :
    @unpackMantissa Format.binary64 (fields s e m) = m := unpackMantissa_packComponents

theorem exists_fields (b : BitVec 64) : ∃ s e m, b = fields s e m := by
  refine ⟨Sign.ofBitVec (b.extractLsb' 63 1), b.extractLsb' 52 11, b.extractLsb' 0 52, ?_⟩
  have hs : (Sign.ofBitVec (b.extractLsb' 63 1)).toBitVec = b.extractLsb' 63 1 := by
    generalize b.extractLsb' 63 1 = v
    revert v
    decide
  apply BitVec.eq_of_toNat_eq
  rw [toNat_fields, hs]
  simp only [BitVec.extractLsb'_toNat, Nat.shiftRight_eq_div_pow]
  have := b.isLt
  omega

theorem toNat_one_append (m : BitVec 52) : (1#1 ++ m).toNat = 2 ^ 52 + m.toNat := by
  rw [BitVec.toNat_append, ← Nat.shiftLeft_add_eq_or_of_lt m.isLt]
  rfl

/-- The number with this sign, exponent field and fraction. -/
def denoted (s : Sign) (e : BitVec 11) (m : BitVec 52) : UnpackedFloat :=
  let exponent : Int := e.toNat - (Format.binary64.exponentBias + (52 : Nat))
  if e = -1#11 then
    if m = 0#52 then .infinity s else .notANumber
  else if e = 0#11 then
    if h : m = 0#52 then .zero s
    else .finite s m.toNat (exponent + 1)
      (Nat.pos_of_ne_zero fun hz => h (BitVec.eq_of_toNat_eq hz))
  else .finite s (1#1 ++ m).toNat exponent (by rw [toNat_one_append]; omega)

theorem unpack_fields (s : Sign) (e : BitVec 11) (m : BitVec 52) :
    UnpackedFloat.unpack Format.binary64 (fields s e m) = denoted s e m := by
  have unpack_eq (b : BitVec 64) : UnpackedFloat.unpack Format.binary64 b =
      denoted (.ofBitVec (@unpackSign Format.binary64 b)) (@unpackExponent Format.binary64 b)
        (@unpackMantissa Format.binary64 b) := rfl
  rw [unpack_eq, unpackSign_fields, unpackExponent_fields, unpackMantissa_fields,
    sign_ofBitVec_toBitVec]

/-- **Negation changes the sign.** -/
theorem neg_denoted (s : Sign) (e : BitVec 11) (m : BitVec 52) :
    (denoted s e m).neg = denoted (-s) e m := by
  unfold denoted
  dsimp only
  by_cases he : e = -1#11
  · rw [if_pos he, if_pos he]
    by_cases hm : m = 0#52
    · rw [if_pos hm, if_pos hm]
      rfl
    · rw [if_neg hm, if_neg hm]
      rfl
  rw [if_neg he, if_neg he]
  by_cases h0 : e = 0#11
  · rw [if_pos h0, if_pos h0]
    by_cases hm : m = 0#52
    · rw [dif_pos hm, dif_pos hm]
      rfl
    · rw [dif_neg hm, dif_neg hm]
      rfl
  · rw [if_neg h0, if_neg h0]
    rfl

theorem pack_subnormal (s : Sign) {m : BitVec 52} {exponent : Int} (hm : 0 < m.toNat)
    (he : exponent = 1 - (Format.binary64.exponentBias + (52 : Nat))) :
    UnpackedFloat.pack Format.binary64 (.finite s m.toNat exponent hm) = fields s 0#11 m := by
  -- The fraction has fewer than 53 binary digits.
  have hlog : m.toNat.log2 < 52 := (Nat.log2_lt (by omega)).2 m.isLt
  have hbits : Format.binary64.mantissaBits = 53 := rfl
  delta UnpackedFloat.pack
  dsimp only
  rw [if_neg (by rw [he]; decide), if_neg (by omega), BitVec.ofNat_toNat, BitVec.setWidth_eq]
  rfl

theorem pack_normal (s : Sign) {e : BitVec 11} {m : BitVec 52} (he : e ≠ -1#11)
    (hm : 0 < (1#1 ++ m).toNat) :
    UnpackedFloat.pack Format.binary64 (.finite s (1#1 ++ m).toNat
      (e.toNat - (Format.binary64.exponentBias + (52 : Nat))) hm) = fields s e m := by
  -- The leading digit is put before the fraction, and dropped again.
  have hlt : e.toNat + 1 < 2 ^ 11 := by
    have hne : e.toNat ≠ 2047 := fun hz => he (BitVec.eq_of_toNat_eq hz)
    have := e.isLt
    omega
  have hlog : (2 ^ 52 + m.toNat).log2 = 52 :=
    (Nat.log2_eq_iff (by omega)).2 ⟨by omega, by omega⟩
  have hexp : ((e.toNat : Int) - (Format.binary64.exponentBias + (52 : Nat)) +
      Format.binary64.exponentBias + (52 : Nat)).toNat = e.toNat := by omega
  have hfraction : BitVec.ofNat 52 (2 ^ 52 + m.toNat) = m := by
    apply BitVec.eq_of_toNat_eq
    rw [BitVec.toNat_ofNat]
    omega
  delta UnpackedFloat.pack
  simp only [toNat_one_append, hlog, hexp]
  rw [if_neg (by omega), if_pos (by decide), BitVec.ofNat_toNat, BitVec.setWidth_eq, hfraction]
  rfl

theorem pack_denoted {s : Sign} {e : BitVec 11} {m : BitVec 52} (h : e = -1#11 → m = 0#52) :
    UnpackedFloat.pack Format.binary64 (denoted s e m) = fields s e m := by
  unfold denoted
  dsimp only
  by_cases he : e = -1#11
  · rw [if_pos he, if_pos (h he), he, h he]
    rfl
  rw [if_neg he]
  by_cases h0 : e = 0#11
  · rw [if_pos h0]
    by_cases hm : m = 0#52
    · rw [dif_pos hm, h0, hm]
      rfl
    · rw [dif_neg hm, h0]
      exact pack_subnormal s _ rfl
  · rw [if_neg h0]
    exact pack_normal s he _

/-! ## Negation -/

theorem eq_of_toBits {x y : Float} (h : x.toBits.toBitVec = y.toBits.toBitVec) : x = y := by
  obtain ⟨⟨b, _⟩⟩ := x
  obtain ⟨⟨c, _⟩⟩ := y
  cases UInt64.toBitVec_inj.1 (show b.toBitVec = c.toBitVec from h)
  rfl

theorem toBits_neg {x : Float} {s : Sign} {e : BitVec 11} {m : BitVec 52}
    (hx : x.toBits.toBitVec = fields s e m) (h : e = -1#11 → m = 0#52) :
    (-x).toBits.toBitVec = fields (-s) e m := by
  change UnpackedFloat.pack Format.binary64
    (UnpackedFloat.unpack Format.binary64 x.toBits.toBitVec).neg = _
  rw [hx, unpack_fields, neg_denoted, pack_denoted h]

theorem toBits_neg_nan {x : Float} {s : Sign} {e : BitVec 11} {m : BitVec 52}
    (hx : x.toBits.toBitVec = fields s e m) (he : e = -1#11) (hm : m ≠ 0#52) : -x = x := by
  have hn : x.toBits.toBitVec = packedNaN Format.binary64 :=
    x.toModel.valid.eq_packedNaN
      (by rw [show x.toModel.toBits.toBitVec = fields s e m from hx, unpackExponent_fields, he])
      (by rw [show x.toModel.toBits.toBitVec = fields s e m from hx, unpackMantissa_fields]
          exact hm)
  apply eq_of_toBits
  change UnpackedFloat.pack Format.binary64
    (UnpackedFloat.unpack Format.binary64 x.toBits.toBitVec).neg = _
  rw [hn]
  rfl

/-- **Negation is an involution.** -/
theorem neg_neg (x : Float) : - -x = x := by
  obtain ⟨s, e, m, hx⟩ := exists_fields x.toBits.toBitVec
  by_cases h : e = -1#11 → m = 0#52
  · apply eq_of_toBits
    rw [toBits_neg (toBits_neg hx h) h, sign_neg_neg, hx]
  · obtain ⟨he, hm⟩ := Classical.not_imp.1 h
    rw [toBits_neg_nan hx he hm, toBits_neg_nan hx he hm]

/-! ## Numbers without a sign -/

theorem fields_of_le (b : BitVec 64) (h : b.toNat ≤ infinityBits) :
    ∃ e m, b = fields .positive e m ∧ (e = -1#11 → m = 0#52) := by
  obtain ⟨s, e, m, rfl⟩ := exists_fields b
  rw [toNat_fields, infinityBits] at h
  cases s with
  | negative =>
    have : Sign.negative.toBitVec.toNat = 1 := rfl
    omega
  | positive =>
    refine ⟨e, m, rfl, ?_⟩
    rintro rfl
    have : Sign.positive.toBitVec.toNat = 0 := rfl
    have : (-1#11).toNat = 2047 := rfl
    exact BitVec.eq_of_toNat_eq (by rw [BitVec.toNat_zero]; omega)

theorem toNat_toBits_ofBits {k : Nat} (h : k ≤ infinityBits) :
    (Float.ofBits (UInt64.ofNat k)).toBits.toNat = k := by
  have hk : (UInt64.ofNat k).toBitVec.toNat = k := by
    have : infinityBits < 2 ^ 64 := by decide
    exact UInt64.toNat_ofNat_of_lt' (Nat.lt_of_le_of_lt h this)
  obtain ⟨e, m, hb, hn⟩ := fields_of_le (UInt64.ofNat k).toBitVec (by rw [hk]; exact h)
  change (UnpackedFloat.pack Format.binary64
    (UnpackedFloat.unpack Format.binary64 (UInt64.ofNat k).toBitVec)).toNat = k
  rw [hb, unpack_fields, pack_denoted hn, ← hb, hk]

theorem isNegative_of_le {x : Float} (h : x.toBits.toNat ≤ infinityBits) :
    isNegative x = false := by
  have : infinityBits < 2 ^ 63 := by decide
  simp only [isNegative, decide_eq_false_iff_not]
  omega

theorem isNegative_neg_of_le {x : Float} (h : x.toBits.toNat ≤ infinityBits) :
    isNegative (-x) = true := by
  obtain ⟨e, m, hx, hn⟩ := fields_of_le x.toBits.toBitVec h
  have hneg : (-x).toBits.toBitVec.toNat = (fields (-.positive) e m).toNat := by
    rw [toBits_neg hx hn]
  have hone : (-Sign.positive).toBitVec.toNat = 1 := rfl
  rw [toNat_fields, hone] at hneg
  rw [UInt64.toNat_toBitVec] at hneg
  simp only [isNegative, decide_eq_true_eq]
  omega

theorem toBits_ofScientific_le (n : Nat) (e : Int) :
    (ofScientific n e).toBits.toNat ≤ infinityBits := by
  have hnear (a b : Nat) : (nearest a b).toBits.toNat ≤ infinityBits := by
    rw [nearest, toNat_toBits_ofBits (nearestBits_le a b)]
    exact nearestBits_le a b
  unfold ofScientific
  dsimp only
  split
  · exact hnear 0 1
  · split
    · exact Nat.le_of_eq (toNat_toBits_ofBits (Nat.le_refl _))
    · exact hnear _ _

end ExprScript.Number
