import ExprScript.Text.Utf8
import Mathlib.Algebra.Group.Nat.Defs
import Mathlib.Data.Char
import Mathlib.Data.List.Lex
import Mathlib.Order.Monotone.Basic

/-!
# The bytes of a text

UTF-8 writes the code point of a character in base 64. The first digit carries a mark that grows
with the number of digits, so the first byte already tells apart characters of different lengths,
and among characters of one length the digits are compared from the highest on. So the order of
texts is that of their bytes. No digit after the first, and no mark, looks like the byte of a
newline.

* `bytes`, `data_toUTF8`: the bytes of a text.
* `digits`, `digits_lt`: numbers in base 64, and their order.
* `utf8EncodeChar_eq`: the bytes of a character are its digits.
* **`bytes_lt_bytes_iff`**: texts are in the order of their bytes.
* `lt_iff_bytes`, `lt_iff_codes`: the order of strings, by bytes and by code points.
* `count_newline_bytes`: each newline of a text is one byte.
* `width_eq_length_iff`: a text has as many bytes as characters if it is ASCII.
-/

namespace ExprScript.Text

/-- The bytes of `cs` in UTF-8. -/
def bytes (cs : List Char) : List UInt8 := cs.flatMap String.utf8EncodeChar

@[simp]
theorem bytes_nil : bytes [] = [] := rfl

@[simp]
theorem bytes_cons (c : Char) (cs : List Char) :
    bytes (c :: cs) = String.utf8EncodeChar c ++ bytes cs := rfl

@[simp]
theorem bytes_append (cs ds : List Char) : bytes (cs ++ ds) = bytes cs ++ bytes ds :=
  List.flatMap_append

@[simp]
theorem length_bytes (cs : List Char) : (bytes cs).length = width cs := by
  induction cs with
  | nil => rfl
  | cons c cs ih => simp [ih]

theorem data_toUTF8 (s : String) : s.toUTF8.data.toList = bytes s.toList := by
  have h : s.toUTF8 = (bytes s.toList).toByteArray := String.utf8Encode_toList.symm
  rw [h, List.data_toByteArray]

/-! ## Numbers in base 64 -/

/-- The digits of `v` in base 64. The first carries the mark `lead` and may exceed the base, the `k`
digits after it carry the mark 128. -/
def digits (lead : ℕ) : ℕ → ℕ → List UInt8
  | 0, v => [.ofNat (v + lead)]
  | k + 1, v => digits lead k (v / 64) ++ [.ofNat (v % 64 + 128)]

theorem exists_digits_eq_cons (lead k v : ℕ) :
    ∃ bs, digits lead k v = .ofNat (v / 64 ^ k + lead) :: bs := by
  induction k generalizing v with
  | zero => exact ⟨[], by simp [digits]⟩
  | succ k ih =>
    obtain ⟨bs, hbs⟩ := ih (v / 64)
    rw [digits, hbs, Nat.div_div_eq_div_mul, ← Nat.pow_succ']
    exact ⟨bs ++ [.ofNat (v % 64 + 128)], rfl⟩

theorem ofNat_lt_ofNat {m n : ℕ} (h : m < n) (hn : n < 256) : UInt8.ofNat m < UInt8.ofNat n := by
  rw [UInt8.lt_iff_toNat_lt, UInt8.toNat_ofNat_of_lt' hn, UInt8.toNat_ofNat_of_lt' (h.trans hn)]
  exact h

/-- The digits of the smaller number come first, whatever stands after them. -/
theorem digits_lt {lead k v w : ℕ} (h : v < w) (hw : w / 64 ^ k + lead < 256)
    (bs bs' : List UInt8) : digits lead k v ++ bs < digits lead k w ++ bs' := by
  induction k generalizing v w bs bs' with
  | zero =>
    refine .rel (ofNat_lt_ofNat ?_ ?_)
    · omega
    · simpa using hw
  | succ k ih =>
    rw [Nat.pow_succ', ← Nat.div_div_eq_div_mul] at hw
    rw [digits, digits, List.append_assoc, List.append_assoc]
    by_cases heq : v / 64 = w / 64
    · -- the numbers differ in the last digit only
      rw [heq]
      refine List.append_left_lt (.rel (ofNat_lt_ofNat ?_ ?_))
      all_goals omega
    · exact ih (by omega) hw _ _

theorem le_of_mem_digits {lead k v : ℕ} (hlead : 128 ≤ lead) (hv : v / 64 ^ k + lead < 256)
    {b : UInt8} (hb : b ∈ digits lead k v) : 128 ≤ b.toNat := by
  induction k generalizing v with
  | zero =>
    obtain rfl := List.mem_singleton.1 hb
    rw [Nat.pow_zero, Nat.div_one] at hv
    rw [UInt8.toNat_ofNat_of_lt' hv]
    omega
  | succ k ih =>
    rw [Nat.pow_succ', ← Nat.div_div_eq_div_mul] at hv
    rcases List.mem_append.1 hb with hb | hb
    · exact ih hv hb
    · have hdigit : v % 64 + 128 < UInt8.size := by
        show v % 64 + 128 < 256
        omega
      obtain rfl := List.mem_singleton.1 hb
      rw [UInt8.toNat_ofNat_of_lt' hdigit]
      omega

/-! ## Characters -/

/-- The number of digits after the first one, for the code point `v`. -/
def more (v : ℕ) : ℕ := if v ≤ 127 then 0 else if v ≤ 2047 then 1 else if v ≤ 65535 then 2 else 3

/-- The mark of the first digit, before `k` others. -/
def mark : ℕ → ℕ
  | 0 => 0
  | 1 => 192
  | 2 => 224
  | _ => 240

theorem toNat_val_lt (c : Char) : c.val.toNat < 0x110000 := by
  rcases c.valid with h | h <;> omega

theorem utf8EncodeChar_eq (c : Char) :
    String.utf8EncodeChar c = digits (mark (more c.val.toNat)) (more c.val.toNat) c.val.toNat := by
  have hc := toNat_val_lt c
  unfold String.utf8EncodeChar more
  generalize c.val.toNat = v at hc
  dsimp only
  split_ifs with h₁ h₂ h₃
  · rfl
  · rw [Nat.mod_eq_of_lt (by omega : v / 64 < 32)]
    rfl
  · rw [Nat.mod_eq_of_lt (by omega : v / 4096 < 16)]
    simp [digits, mark, Nat.div_div_eq_div_mul]
  · rw [Nat.mod_eq_of_lt (by omega : v / 262144 < 8)]
    simp [digits, mark, Nat.div_div_eq_div_mul]

theorem lead_lt {v : ℕ} (hv : v < 0x110000) : v / 64 ^ more v + mark (more v) < 256 := by
  unfold more
  split_ifs <;> simp only [mark] <;> omega

/-- A character of fewer bytes begins with a lower byte. -/
theorem lead_lt_lead {v w : ℕ} (h : more v < more w) (hw : w < 0x110000) :
    v / 64 ^ more v + mark (more v) < w / 64 ^ more w + mark (more w) := by
  unfold more at h ⊢
  split_ifs at h ⊢ <;> simp only [mark] <;> omega

theorem utf8EncodeChar_lt {c d : Char} (h : c < d) (bs bs' : List UInt8) :
    String.utf8EncodeChar c ++ bs < String.utf8EncodeChar d ++ bs' := by
  have hlt : c.val.toNat < d.val.toNat := h
  have hd := toNat_val_lt d
  rw [utf8EncodeChar_eq, utf8EncodeChar_eq]
  generalize c.val.toNat = v at hlt
  generalize d.val.toNat = w at hlt hd
  by_cases heq : more v = more w
  · rw [heq]
    exact digits_lt hlt (lead_lt hd) bs bs'
  · have hmore : more v < more w := by
      unfold more at heq ⊢
      split_ifs at heq ⊢ <;> omega
    obtain ⟨_, hv⟩ := exists_digits_eq_cons (mark (more v)) (more v) v
    obtain ⟨_, hw⟩ := exists_digits_eq_cons (mark (more w)) (more w) w
    rw [hv, hw]
    exact .rel (ofNat_lt_ofNat (lead_lt_lead hmore hd) (lead_lt hd))

/-! ## The order of texts -/

theorem bytes_lt_bytes {cs ds : List Char} (h : cs < ds) : bytes cs < bytes ds := by
  induction h with
  | @nil d ds =>
    obtain ⟨b, bs, hd⟩ := List.exists_cons_of_ne_nil (String.utf8EncodeChar_ne_nil (c := d))
    rw [bytes_cons, hd]
    exact .nil
  | rel h => exact utf8EncodeChar_lt h _ _
  | cons _ ih => exact List.append_left_lt ih

/-- **Texts are in the order of their bytes.** -/
theorem bytes_lt_bytes_iff {cs ds : List Char} : bytes cs < bytes ds ↔ cs < ds := by
  refine ⟨fun h => ?_, bytes_lt_bytes⟩
  rcases lt_trichotomy cs ds with hlt | rfl | hgt
  · exact hlt
  · exact absurd h (List.lt_irrefl _)
  · exact absurd h (List.lt_asymm (bytes_lt_bytes hgt))

theorem lt_iff_bytes {s t : String} :
    s < t ↔ List.Lex (· < ·) s.toUTF8.data.toList t.toUTF8.data.toList := by
  rw [data_toUTF8, data_toUTF8]
  exact bytes_lt_bytes_iff.symm

theorem lt_iff_codes {s t : String} :
    s < t ↔ List.Lex (· < ·) (s.toList.map Char.toNat) (t.toList.map Char.toNat) := by
  have hmono : StrictMono (List.map Char.toNat) := by
    intro cs ds h
    induction h with
    | nil => exact .nil
    | rel h => exact .rel h
    | cons _ ih => exact .cons ih
  exact hmono.lt_iff_lt.symm

/-! ## Newlines -/

/-- The byte of a newline. -/
def newline : UInt8 := 10

theorem eq_newline_of_mem {c : Char} (h : newline ∈ String.utf8EncodeChar c) : c = '\n' := by
  rw [utf8EncodeChar_eq] at h
  by_cases hc : c.val.toNat ≤ 127
  · rw [more, if_pos hc] at h
    have hcode : newline = .ofNat c.val.toNat := List.mem_singleton.1 h
    have hnat : newline.toNat = c.val.toNat := by
      rw [hcode]
      exact UInt8.toNat_ofNat_of_lt' (hc.trans_lt (by decide))
    exact Char.toNat_inj.1 hnat.symm
  · have hmark : 128 ≤ mark (more c.val.toNat) := by
      unfold more
      split_ifs <;> simp only [mark] <;> omega
    exact absurd (le_of_mem_digits hmark (lead_lt (toNat_val_lt c)) h) (by decide)

theorem count_newline_bytes (cs : List Char) : (bytes cs).count newline = cs.count '\n' := by
  induction cs with
  | nil => rfl
  | cons c cs ih =>
    rw [bytes_cons, List.count_append, ih, Nat.add_comm]
    by_cases hc : c = '\n'
    · subst hc
      rw [List.count_cons_self]
      rfl
    · rw [List.count_cons_of_ne hc, List.count_eq_zero_of_not_mem (mt eq_newline_of_mem hc)]
      rfl

theorem newline_mem_bytes_iff {cs : List Char} : newline ∈ bytes cs ↔ '\n' ∈ cs := by
  rw [← List.count_pos_iff, count_newline_bytes, List.count_pos_iff]

/-! ## ASCII -/

theorem length_le_width (cs : List Char) : cs.length ≤ width cs := by
  induction cs with
  | nil => rfl
  | cons c cs ih =>
    have := c.utf8Size_pos
    rw [List.length_cons, width_cons]
    omega

/-- A text has as many bytes as characters if and only if it is ASCII. -/
theorem width_eq_length_iff {cs : List Char} :
    width cs = cs.length ↔ ∀ c ∈ cs, c.toNat < 128 := by
  induction cs with
  | nil => simp
  | cons c cs ih =>
    have hle := length_le_width cs
    have hpos := c.utf8Size_pos
    have hone : c.utf8Size = 1 ↔ c.toNat < 128 := by
      rw [Char.utf8Size_eq_one_iff, UInt32.le_iff_toNat_le]
      exact Nat.lt_succ_iff.symm
    rw [List.forall_mem_cons, ← ih, ← hone, width_cons, List.length_cons]
    omega

end ExprScript.Text
