import ExprScript.Proofs.Bytes
import ExprScript.Proofs.Operation

/-!
# Comparisons

The six comparisons read one answer, how two values of one tag are ordered, in six ways. On all tags
but that of floating-point numbers there always is such an answer, and it is a linear order.

* `Comparison.Affirms`: the comparison holds of two values.
* `Comparison.Coherent`, `Comparison.coherent_of_tag`: the comparisons of two values agree.
* `Value.exists_order`, `Value.equals_iff`, `Value.Precedes.trans`: the order of values that are not
  floating-point numbers.
* **`comparisons_order`**: all of it.
-/

namespace ExprScript

namespace Comparison

/-- The comparison is made, and it holds. -/
def Affirms (op : Comparison) (v w : Value) : Prop := op.apply v w = .ok (.boolean true)

theorem apply_of_tag (op : Comparison) {v w : Value} (ht : v.tag = w.tag) :
    op.apply v w = .ok (.boolean (op.holds (v.order w))) :=
  if_neg (not_not_intro ht)

theorem apply_of_tag_ne (op : Comparison) {v w : Value} (ht : v.tag ≠ w.tag) :
    op.apply v w = .error (.comparisonMismatch op v.tag w.tag) :=
  if_pos ht

theorem Affirms.tag_eq {op : Comparison} {v w : Value} (h : op.Affirms v w) : v.tag = w.tag := by
  by_contra ht
  rw [Affirms, op.apply_of_tag_ne ht] at h
  cases h

theorem affirms_iff {op : Comparison} {v w : Value} (ht : v.tag = w.tag) :
    op.Affirms v w ↔ op.Relates v w := by
  rw [Affirms, op.apply_of_tag ht, ← op.holds_order v w]
  simp

/-- What the comparisons of two values have to do with one another. -/
structure Coherent (v w : Value) : Prop where
  notEqual : ∃ b, equal.apply v w = .ok (.boolean b) ∧ notEqual.apply v w = .ok (.boolean !b)
  greater : greater.apply v w = less.apply w v
  greaterEq : greaterEq.apply v w = lessEq.apply w v
  lessEq : ∃ a b, less.apply v w = .ok (.boolean a) ∧ equal.apply v w = .ok (.boolean b) ∧
    lessEq.apply v w = .ok (.boolean (a || b))

/-- **The comparisons of two values agree,** floating-point numbers included. -/
theorem coherent_of_tag {v w : Value} (ht : v.tag = w.tag) : Coherent v w where
  notEqual := by
    refine ⟨_, equal.apply_of_tag ht, ?_⟩
    rw [notEqual.apply_of_tag ht]
    simp [holds]
  greater := by
    rw [greater.apply_of_tag ht, less.apply_of_tag ht.symm, Value.order_swap v w]
    rcases v.order w with _ | _ | _ | _ <;> rfl
  greaterEq := by
    rw [greaterEq.apply_of_tag ht, lessEq.apply_of_tag ht.symm, Value.order_swap v w]
    rcases v.order w with _ | _ | _ | _ <;> rfl
  lessEq := ⟨_, _, less.apply_of_tag ht, equal.apply_of_tag ht, lessEq.apply_of_tag ht⟩

end Comparison

/-! ## Linear orders -/

namespace Value

theorem exists_order {v w : Value} (ht : v.tag = w.tag) (hv : v.tag ≠ .float) :
    ∃ o, v.order w = some o := by
  cases v <;> cases w <;> simp_all [tag, order]

theorem equals_iff {v w : Value} (hv : v.tag ≠ .float) : v.equals w = true ↔ v = w := by
  cases v <;> cases w <;> simp_all [tag, equals]

theorem Precedes.trans {u v w : Value} (hu : u.tag ≠ .float) (h : u.Precedes v)
    (h' : v.Precedes w) : u.Precedes w := by
  cases h with
  | integer h =>
    cases h' with
    | integer h' => exact .integer (Int64.lt_trans h h')
  | float => exact absurd rfl hu
  | string h =>
    cases h' with
    | string h' => exact .string (String.lt_trans h h')
  | boolean => cases h'

end Value

namespace Comparison

variable {u v w : Value}

/-- Two values that are not floating-point numbers are in exactly one of three relations. -/
theorem exists_unique_affirms (ht : v.tag = w.tag) (hv : v.tag ≠ .float) :
    ∃! op, op ∈ [less, equal, greater] ∧ op.Affirms v w := by
  obtain ⟨o, ho⟩ := Value.exists_order ht hv
  have haffirms (op : Comparison) : op.Affirms v w ↔ op.holds (some o) = true := by
    rw [Affirms, op.apply_of_tag ht, ho]
    simp
  simp only [haffirms]
  cases o with
  | lt => exact ⟨less, by simp [holds], by rintro (_ | _) <;> simp [holds]⟩
  | eq => exact ⟨equal, by simp [holds], by rintro (_ | _) <;> simp [holds]⟩
  | gt => exact ⟨greater, by simp [holds], by rintro (_ | _) <;> simp [holds]⟩

theorem equal_affirms_iff (hv : v.tag ≠ .float) : equal.Affirms v w ↔ v = w := by
  constructor
  · intro h
    exact (Value.equals_iff hv).1 ((affirms_iff h.tag_eq).1 h)
  · rintro rfl
    exact (affirms_iff rfl).2 ((Value.equals_iff hv).2 rfl)

theorem less_affirms_trans (hu : u.tag ≠ .float) (h : less.Affirms u v) (h' : less.Affirms v w) :
    less.Affirms u w :=
  (affirms_iff (h.tag_eq.trans h'.tag_eq)).2
    (((affirms_iff h.tag_eq).1 h).trans hu ((affirms_iff h'.tag_eq).1 h'))

theorem lessEq_affirms_iff : lessEq.Affirms v w ↔ less.Affirms v w ∨ equal.Affirms v w := by
  by_cases ht : v.tag = w.tag
  · rw [affirms_iff ht, affirms_iff ht, affirms_iff ht]
    rfl
  · have hno (op : Comparison) : ¬ op.Affirms v w := fun h => ht h.tag_eq
    simp only [hno, or_self]

theorem lessEq_affirms_trans (hu : u.tag ≠ .float) (h : lessEq.Affirms u v)
    (h' : lessEq.Affirms v w) : lessEq.Affirms u w := by
  have hv : v.tag ≠ .float := h.tag_eq ▸ hu
  rcases lessEq_affirms_iff.1 h with hless | heq
  · rcases lessEq_affirms_iff.1 h' with hless' | heq'
    · exact lessEq_affirms_iff.2 (.inl (less_affirms_trans hu hless hless'))
    · obtain rfl := (equal_affirms_iff hv).1 heq'
      exact h
  · obtain rfl := (equal_affirms_iff hu).1 heq
    exact h'

theorem less_affirms_string_iff {s t : String} : less.Affirms (.string s) (.string t) ↔ s < t := by
  have ht : (Value.string s).tag = (Value.string t).tag := rfl
  rw [affirms_iff ht]
  constructor
  · rintro (_ | _ | h)
    exact h
  · exact .string

end Comparison

/-! ## All values -/

section

open Comparison

/-- **Comparisons fail only on different tags, and agree with one another.** Values other than
floating-point numbers are linearly ordered, strings by their bytes. -/
theorem comparisons_order :
    (∀ (op : Comparison) (v w : Value),
      ((∃ c, op.apply v w = .error c ∧ c.category = .typeMismatch) ↔ v.tag ≠ w.tag) ∧
      ((∃ b, op.apply v w = .ok (.boolean b)) ↔ v.tag = w.tag)) ∧
    (∀ v w : Value, v.tag = w.tag → Coherent v w) ∧
    (∀ v w : Value, v.tag = w.tag → v.tag ≠ .float →
      (∃! op, op ∈ [less, equal, greater] ∧ op.Affirms v w) ∧ (equal.Affirms v w ↔ v = w)) ∧
    (∀ u v w : Value, u.tag ≠ .float →
      (less.Affirms u v → less.Affirms v w → less.Affirms u w) ∧
      (lessEq.Affirms u v → lessEq.Affirms v w → lessEq.Affirms u w)) ∧
    ∀ s t : String,
      (less.Affirms (.string s) (.string t) ↔
        List.Lex (· < ·) s.toUTF8.data.toList t.toUTF8.data.toList) ∧
      (less.Affirms (.string s) (.string t) ↔
        List.Lex (· < ·) (s.toList.map Char.toNat) (t.toList.map Char.toNat)) := by
  refine ⟨fun op v w => ⟨⟨?_, ?_⟩, ?_, ?_⟩, fun v w => coherent_of_tag,
    fun v w ht hv => ⟨exists_unique_affirms ht hv, equal_affirms_iff hv⟩,
    fun u v w hu => ⟨less_affirms_trans hu, lessEq_affirms_trans hu⟩, fun s t => ⟨?_, ?_⟩⟩
  · rintro ⟨c, hc, -⟩ ht
    rw [op.apply_of_tag ht] at hc
    cases hc
  · exact fun ht => ⟨_, op.apply_of_tag_ne ht, rfl⟩
  · rintro ⟨b, hb⟩
    by_contra ht
    rw [op.apply_of_tag_ne ht] at hb
    cases hb
  · exact fun ht => ⟨_, op.apply_of_tag ht⟩
  · exact less_affirms_string_iff.trans Text.lt_iff_bytes
  · exact less_affirms_string_iff.trans Text.lt_iff_codes

/-- Not-a-number and one, and two characters that words of 16 bits put the other way round. -/
theorem comparisons_order_surrogates :
    let x := Value.float (Float.ofBits 0x7ff8000000000000)
    let y := Value.float (Float.ofBits 0x3ff0000000000000)
    let s := Value.string "a\uffff"
    let t := Value.string "a😀"
    x.tag = y.tag ∧ Coherent x y ∧ notEqual.Affirms x y ∧
      s.tag = t.tag ∧ s.tag ≠ .float ∧
      (∃! op, op ∈ [less, equal, greater] ∧ op.Affirms s t) ∧ less.Affirms s t := by
  intro x y s t
  have hne : notEqual.Affirms x y := by
    have hvalues : ¬ x.equals y = true := by decide +kernel
    exact (affirms_iff rfl).2 hvalues
  have hs : s.tag ≠ .float := by decide
  have hless : less.Affirms s t := (comparisons_order.2.2.2.2 _ _).2.2 (by decide)
  exact ⟨rfl, comparisons_order.2.1 x y rfl, hne, rfl, hs, (comparisons_order.2.2.1 s t rfl hs).1,
    hless⟩

end

end ExprScript
