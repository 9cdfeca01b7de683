import ExprScript.Proofs.ShortestDecimal
import ExprScript.Value

/-!
# What is printed

The text of a value, as rules. A floating-point number is written as the shortest decimal that reads
back as it, with its sign; infinities and not-a-number have names.

* `Number.Written`: the text of a run of digits, by where the point stands.
* `Number.Shows`: the text of a number without its sign.
* `Value.Shows`: the text of a value; **`Value.shows_iff`**: it is the one that is printed.
-/

namespace ExprScript

namespace Number

theorem integerText_eq_toString (i : ℤ) : integerText i = toString i := by
  rw [integerText, integerChars]
  cases i with
  | ofNat n => rfl
  | negSucc n =>
    rw [if_pos (Int.negSucc_lt_zero n), String.ofList_cons]
    rfl

theorem integerChars_eq_toString (i : ℤ) : integerChars i = (toString i).toList := by
  rw [← integerText_eq_toString, integerText, String.toList_ofList]

/-! ## Decimals -/

/-- The text of the digits `ds`, the first of which stands for `10 ^ e`: with a point and no
exponent from a ten-thousandth up to ten to the sixteenth, and with an exponent otherwise. -/
inductive Written (ds : List Char) (e : ℤ) : List Char → Prop
  /-- The point stands before the digits. -/
  | before (he : -4 ≤ e ∧ e < 0) :
      Written ds e ('0' :: '.' :: (List.replicate (-e - 1).toNat '0' ++ ds))
  /-- The point stands between the digits. -/
  | within {whole part : List Char} (he : 0 ≤ e ∧ e < 16) (hds : ds = whole ++ part)
      (hwhole : (whole.length : ℤ) = e + 1) (hpart : part ≠ []) :
      Written ds e (whole ++ '.' :: part)
  /-- The point stands after the digits. -/
  | after {n : ℕ} (he : 0 ≤ e ∧ e < 16) (hn : (ds.length + n : ℤ) = e + 1) :
      Written ds e (ds ++ List.replicate n '0' ++ ['.', '0'])
  /-- There is no point after a single digit with an exponent. -/
  | digit {c : Char} (he : e < -4 ∨ 16 ≤ e) (hds : ds = [c]) :
      Written ds e (c :: 'e' :: (toString e).toList)
  | scientific {c : Char} {part : List Char} (he : e < -4 ∨ 16 ≤ e) (hds : ds = c :: part)
      (hpart : part ≠ []) : Written ds e (c :: '.' :: (part ++ 'e' :: (toString e).toList))

/-- The exponent of the first digit of a decimal. -/
def Decimal.leading (d : Decimal) : ℤ := (Nat.toDigits 10 d.digits).length - 1 + d.exponent

theorem Written.eq_plainText {ds text : List Char} {e : ℤ} (h : Written ds e text)
    (he : -4 ≤ e ∧ e < 16) : text = plainText ds e := by
  cases h with
  | before h =>
    rw [plainText, if_pos h.2]
    rfl
  | @within whole part h hds hwhole hpart =>
    obtain rfl : e = whole.length - 1 := by omega
    have hn : ((whole.length - 1 : ℤ).toNat + 1) = whole.length := by omega
    rw [plainText, if_neg (by omega), hds, hn]
    simp [hpart]
  | @after n h hn =>
    have hn : e.toNat + 1 = ds.length + n := by omega
    rw [plainText, if_neg (by omega), hn]
    simp
  | digit h | scientific h => omega

theorem Written.eq_exponentText {ds text : List Char} {e : ℤ} (h : Written ds e text)
    (he : ¬ (-4 ≤ e ∧ e < 16)) : text = exponentText ds e := by
  cases h with
  | before h | within h | after h => omega
  | digit h hds => simp [exponentText, hds, integerChars_eq_toString]
  | scientific h hds hpart => simp [exponentText, hds, hpart, integerChars_eq_toString]

theorem Written.eq_write {d : Decimal} {text : List Char}
    (h : Written (Nat.toDigits 10 d.digits) d.leading text) : text = Layout.standard.write d := by
  have hwrite : Layout.standard.write d = if -4 ≤ d.leading ∧ d.leading < 16
      then plainText (Nat.toDigits 10 d.digits) d.leading
      else exponentText (Nat.toDigits 10 d.digits) d.leading := rfl
  rw [hwrite]
  split_ifs with he
  · exact h.eq_plainText he
  · exact h.eq_exponentText he

theorem exists_written {ds : List Char} (hds : ds ≠ []) (e : ℤ) : ∃ text, Written ds e text := by
  obtain ⟨c, part, rfl⟩ := List.exists_cons_of_ne_nil hds
  by_cases hplain : -4 ≤ e ∧ e < 16
  · by_cases hneg : e < 0
    · exact ⟨_, .before ⟨hplain.1, hneg⟩⟩
    · by_cases hlong : (c :: part).length ≤ e + 1
      · exact ⟨_, .after ⟨by omega, hplain.2⟩ (n := (e + 1 - (c :: part).length).toNat) (by omega)⟩
      · refine ⟨_, .within ⟨by omega, hplain.2⟩ (List.take_append_drop (e.toNat + 1) _).symm ?_ ?_⟩
        · rw [List.length_take]
          omega
        · rw [← List.length_pos_iff, List.length_drop]
          omega
  · by_cases hpart : part = []
    · exact ⟨_, .digit (by omega) (by rw [hpart])⟩
    · exact ⟨_, .scientific (by omega) rfl hpart⟩

theorem written_write (d : Decimal) :
    Written (Nat.toDigits 10 d.digits) d.leading (Layout.standard.write d) := by
  obtain ⟨text, h⟩ := exists_written (Nat.toDigits_ne_nil (b := 10) (n := d.digits)) d.leading
  rwa [← h.eq_write]

/-! ## Bits -/

/-- The text of the number with these bits and no sign. -/
inductive Shows : ℕ → List Char → Prop
  | zero : Shows 0 "0.0".toList
  | infinity : Shows infinityBits "inf".toList
  | finite {b : ℕ} {d : Decimal} {text : List Char} (hb : 0 < b) (hb' : b < infinityBits)
      (hd : d.Abbreviates b) (htext : Written (Nat.toDigits 10 d.digits) d.leading text) :
      Shows b text

theorem shapeOfBits_mod (bits : ℕ) : shapeOfBits (bits % 2 ^ 63) = shapeOfBits bits := by
  have hfield : (bits % 2 ^ 63) >>> 52 % 1 <<< 11 = bits >>> 52 % 1 <<< 11 := by
    simp only [Nat.shiftRight_eq_div_pow, Nat.shiftLeft_eq]
    omega
  have hfraction : bits % 2 ^ 63 % 1 <<< 52 = bits % 1 <<< 52 := by
    simp only [Nat.shiftLeft_eq]
    omega
  unfold shapeOfBits
  rw [hfield, hfraction]

theorem shapeOfBits_of_lt {bits : ℕ} (h : infinityBits < bits % 2 ^ 63) :
    shapeOfBits bits = .nan := by
  have hlt : bits % 2 ^ 63 < 2 ^ 63 := Nat.mod_lt _ (by norm_num)
  rw [← shapeOfBits_mod]
  generalize bits % 2 ^ 63 = b at h hlt
  rw [infinityBits, Nat.shiftLeft_eq] at h
  unfold shapeOfBits
  simp only [Nat.shiftRight_eq_div_pow, Nat.shiftLeft_eq]
  rw [if_pos (by omega), if_neg (by omega)]

theorem Shows.le {b : ℕ} {text : List Char} (h : Shows b text) : b ≤ infinityBits := by
  cases h with
  | zero => exact Nat.zero_le _
  | infinity => exact le_rfl
  | finite _ hb' => exact hb'.le

theorem exists_shows {b : ℕ} (hb : b ≤ infinityBits) : ∃ text, Shows b text := by
  rcases hb.lt_or_eq with hlt | rfl
  · rcases Nat.eq_zero_or_pos b with rfl | hpos
    · exact ⟨_, .zero⟩
    · exact ⟨_, .finite hpos hlt (abbreviates_shortest hpos hlt) (written_write _)⟩
  · exact ⟨_, .infinity⟩

theorem floatChars_of_nan {x : Float} (h : infinityBits < x.toBits.toNat % 2 ^ 63) :
    floatChars Layout.standard x = "NaN".toList := by
  rw [floatChars, shape, shapeOfBits_of_lt h]
  rfl

theorem Shows.floatChars_eq {x : Float} {text : List Char}
    (h : Shows (x.toBits.toNat % 2 ^ 63) text) :
    floatChars Layout.standard x = if isNegative x then '-' :: text else text := by
  generalize hb : x.toBits.toNat % 2 ^ 63 = b at h
  have hshape : shape x = shapeOfBits b := by rw [shape, ← shapeOfBits_mod, hb]
  rw [floatChars, hshape]
  cases h with
  | zero => rfl
  | infinity => rfl
  | finite hpos hlt hd htext =>
    rw [shapeOfBits_eq hlt]
    dsimp only
    rw [if_neg (significand_pos hpos).ne', htext.eq_write,
      hd.unique (abbreviates_shortest hpos hlt)]

end Number

/-! ## Values -/

/-- The text of a value. -/
inductive Value.Shows : Value → String → Prop
  | unit : Shows .unit "Unit"
  | integer (i : Int64) : Shows (.integer i) (toString i.toInt)
  | positive {x : Float} {text : List Char} (h : Number.Shows x.toBits.toNat text) :
      Shows (.float x) (.ofList text)
  | negative {x : Float} {b : ℕ} {text : List Char} (hx : x.toBits.toNat = 2 ^ 63 + b)
      (h : Number.Shows b text) : Shows (.float x) (.ofList ('-' :: text))
  | nan {x : Float} (h : Number.infinityBits < x.toBits.toNat % 2 ^ 63) : Shows (.float x) "NaN"
  | string (s : String) : Shows (.string s) s
  | yes : Shows (.boolean true) "true"
  | no : Shows (.boolean false) "false"

theorem Value.Shows.eq_text {v : Value} {s : String} (h : v.Shows s) : s = v.text := by
  have hinf : Number.infinityBits < 2 ^ 63 := by decide
  cases h with
  | unit | string | yes | no => rfl
  | integer i => exact (Number.integerText_eq_toString i.toInt).symm
  | @positive x text h =>
    have hlt : x.toBits.toNat < 2 ^ 63 := h.le.trans_lt hinf
    have hsign : Number.isNegative x = false := by simpa [Number.isNegative] using hlt
    rw [← Nat.mod_eq_of_lt hlt] at h
    rw [Value.text, Number.floatText, h.floatChars_eq, hsign]
    rfl
  | @negative x b text hx h =>
    have hmod : x.toBits.toNat % 2 ^ 63 = b := by
      have := h.le
      omega
    have hsign : Number.isNegative x = true := by simp [Number.isNegative, hx]
    rw [← hmod] at h
    rw [Value.text, Number.floatText, h.floatChars_eq, hsign, if_pos rfl]
  | nan h =>
    rw [text, Number.floatText, Number.floatChars_of_nan h]
    rfl

theorem Value.exists_shows_float (x : Float) : ∃ s, (Value.float x).Shows s := by
  by_cases hnan : Number.infinityBits < x.toBits.toNat % 2 ^ 63
  · exact ⟨_, .nan hnan⟩
  obtain ⟨text, h⟩ := Number.exists_shows (not_lt.1 hnan)
  by_cases hlt : x.toBits.toNat < 2 ^ 63
  · rw [Nat.mod_eq_of_lt hlt] at h
    exact ⟨_, .positive h⟩
  · have := x.toBits.toNat_lt
    exact ⟨_, .negative (by omega) h⟩

theorem Value.shows_text (v : Value) : v.Shows v.text := by
  cases v with
  | unit => exact .unit
  | integer i =>
    rw [text, Number.integerText_eq_toString]
    exact .integer i
  | float x =>
    obtain ⟨s, h⟩ := exists_shows_float x
    exact h.eq_text ▸ h
  | string s => exact .string s
  | boolean b =>
    cases b
    · exact .no
    · exact .yes

/-- **The text of a value is the one that is printed.** -/
theorem Value.shows_iff {v : Value} {s : String} : v.Shows s ↔ s = v.text :=
  ⟨Shows.eq_text, fun h => h ▸ v.shows_text⟩

end ExprScript
