import ExprScript.Eval
import ExprScript.Proofs.Display

/-!
# The rules of the operators

What the binary operators give, as rules on values: which tags they take, in which order the faults
are noticed, and what they compute. Integer division is division rounded down.

* `Arithmetic.Computes`: the operations on operands that an operator supports.
* `Value.IsZero`: the divisors that are refused.
* `Value.Precedes`, `Comparison.Relates`: what comparisons mean.
* `Expr.binary`, `Expr.eval_binary`: operations of any family, and how they are evaluated.
* `Operator.Gives`: the rules; **`Operator.gives_iff`**: they are the operators.
-/

namespace ExprScript

/-- A binary operator of any family. -/
inductive Operator where
  | arithmetic (op : Arithmetic)
  | logical (op : Logical)
  | comparison (op : Comparison)

/-- The value of an operation. -/
def Operator.apply : Operator → Value → Value → Except Cause Value
  | arithmetic op => op.apply
  | logical op => op.apply
  | comparison op => op.apply

/-- The tree of an operation. -/
def Expr.binary : Operator → Expr → Expr → Expr
  | .arithmetic op => Expr.arithmetic op
  | .logical op => Expr.logical op
  | .comparison op => Expr.comparison op

theorem Expr.eval_binary (rounds : Nat) (o : Operator) (l r : Expr) (env : Env) :
    (Expr.binary o l r).eval rounds env = (do
      let left ← l.eval rounds env
      let right ← r.eval rounds left.env
      let value ← Attempt.ofExcept (o.apply left.value right.value)
      return ⟨value, right.env⟩) := by
  cases o <;> rfl

/-- The operation on two operands that the operator supports. -/
inductive Arithmetic.Computes : Arithmetic → Value → Value → Value → Prop
  | addInteger (i j : Int64) : Computes .add (.integer i) (.integer j) (.integer (i + j))
  | addFloat (x y : Float) : Computes .add (.float x) (.float y) (.float (x + y))
  | addString (s t : String) : Computes .add (.string s) (.string t) (.string (s ++ t))
  | subtractInteger (i j : Int64) : Computes .subtract (.integer i) (.integer j) (.integer (i - j))
  | subtractFloat (x y : Float) : Computes .subtract (.float x) (.float y) (.float (x - y))
  | multiplyInteger (i j : Int64) : Computes .multiply (.integer i) (.integer j) (.integer (i * j))
  | multiplyFloat (x y : Float) : Computes .multiply (.float x) (.float y) (.float (x * y))
  | divideInteger (i j : Int64) :
      Computes .divide (.integer i) (.integer j) (.integer (.ofInt (i.toInt.fdiv j.toInt)))
  | divideFloat (x y : Float) : Computes .divide (.float x) (.float y) (.float (x / y))

/-- The strict order on the values of one tag. -/
inductive Value.Precedes : Value → Value → Prop
  | integer {i j : Int64} (h : i < j) : Precedes (.integer i) (.integer j)
  | float {x y : Float} (h : x < y) : Precedes (.float x) (.float y)
  | string {s t : String} (h : s < t) : Precedes (.string s) (.string t)
  | boolean : Precedes (.boolean false) (.boolean true)

/-- What a comparison says of two values of one tag. -/
def Comparison.Relates : Comparison → Value → Value → Prop
  | less, v, w => v.Precedes w
  | lessEq, v, w => v.Precedes w ∨ v.equals w = true
  | greater, v, w => w.Precedes v
  | greaterEq, v, w => w.Precedes v ∨ v.equals w = true
  | equal, v, w => v.equals w = true
  | notEqual, v, w => ¬ v.equals w = true

/-- Zero of its tag: of floating-point numbers both zeros, of truth values `false`. -/
inductive Value.IsZero : Value → Prop
  | integer : IsZero (.integer 0)
  | float {x : Float} (h : (x == 0) = true) : IsZero (.float x)
  | boolean : IsZero (.boolean false)

/-- The rules of the operators. Tags are compared first, then a zero divisor is noticed, and only
then a tag that the operator does not support. -/
inductive Operator.Gives : Operator → Value → Value → Except Cause Value → Prop
  | computed {op : Arithmetic} {u v w : Value} (ht : v.tag = w.tag)
      (hz : ¬ (op = .divide ∧ w.IsZero)) (h : op.Computes v w u) :
      Gives (arithmetic op) v w (.ok u)
  | zeroDivisor {v w : Value} {dividend : String} (ht : v.tag = w.tag) (hz : w.IsZero)
      (hs : v.Shows dividend) : Gives (arithmetic .divide) v w (.error (.divideByZero dividend))
  | unsupported {op : Arithmetic} {v w : Value} (ht : v.tag = w.tag)
      (hz : ¬ (op = .divide ∧ w.IsZero)) (h : ∀ u, ¬ op.Computes v w u) :
      Gives (arithmetic op) v w (.error (.arithmeticUnsupported op v.tag))
  | arithmeticMismatch (op : Arithmetic) {v w : Value} (ht : v.tag ≠ w.tag) :
      Gives (arithmetic op) v w (.error (.arithmeticMismatch op v.tag w.tag))
  | conjunction (a b : Bool) :
      Gives (logical .and) (.boolean a) (.boolean b) (.ok (.boolean (a && b)))
  | disjunction (a b : Bool) :
      Gives (logical .or) (.boolean a) (.boolean b) (.ok (.boolean (a || b)))
  | logicalMismatch (op : Logical) {v w : Value} (ht : v.tag ≠ .boolean ∨ w.tag ≠ .boolean) :
      Gives (logical op) v w (.error (.logicalMismatch op v.tag w.tag))
  | compared {op : Comparison} {v w : Value} {b : Bool} (ht : v.tag = w.tag)
      (h : b = true ↔ op.Relates v w) : Gives (comparison op) v w (.ok (.boolean b))
  | comparisonMismatch (op : Comparison) {v w : Value} (ht : v.tag ≠ w.tag) :
      Gives (comparison op) v w (.error (.comparisonMismatch op v.tag w.tag))

/-! ## Integer division -/

/-- **Division is rounded down.** -/
theorem floorDiv_eq (a b : Int64) (hb : b ≠ 0) :
    floorDiv a b = Int64.ofInt (a.toInt.fdiv b.toInt) := by
  have hb' : b.toInt ≠ 0 := fun h => hb (Int64.toInt_inj.1 (by simpa using h))
  have hdvd : a % b ≠ 0 ↔ ¬ b.toInt ∣ a.toInt := by
    rw [ne_eq, ← Int64.toInt_inj, Int64.toInt_mod, Int.dvd_iff_tmod_eq_zero]
    rfl
  have ha0 : a < 0 ↔ a.toInt < 0 := by rw [Int64.lt_iff_toInt_lt]; rfl
  have hb0 : b < 0 ↔ b.toInt < 0 := by rw [Int64.lt_iff_toInt_lt]; rfl
  rw [← Int64.toInt_inj, Int64.toInt_ofInt, floorDiv, Int.fdiv_eq_tdiv]
  simp only [hdvd, ha0, hb0]
  split
  · next h =>
    rw [Int64.toInt_sub, Int64.toInt_div, if_neg h.1]
    have hs : (if 0 ≤ a.toInt then if 0 ≤ b.toInt then 0 else 1
        else if 0 ≤ b.toInt then b.toInt.sign else 1 + b.toInt.sign) = 1 := by
      have := h.2
      split <;> split
      · omega
      · rfl
      · exact Int.sign_eq_one_of_pos (by omega)
      · omega
    rw [hs]
    simp [Int64.size, Int.bmod_sub_bmod]
  · next h =>
    rw [Int64.toInt_div]
    have hs : (if b.toInt ∣ a.toInt then 0 else if 0 ≤ a.toInt then if 0 ≤ b.toInt then 0 else 1
        else if 0 ≤ b.toInt then b.toInt.sign else 1 + b.toInt.sign) = 0 := by
      split
      · rfl
      · next hd =>
        split <;> split
        · rfl
        · exact absurd ⟨hd, by omega⟩ h
        · exact absurd ⟨hd, by omega⟩ h
        · have := Int.sign_eq_neg_one_of_neg (a := b.toInt) (by omega)
          omega
    rw [hs]
    simp [Int64.size]

/-! ## Comparison -/

section Floats

open Float.Model

theorem compare_then_swap (e f : Int) (m n : Nat) :
    (compare f e).then (compare n m) = ((compare e f).then (compare m n)).swap := by
  rw [Ordering.swap_then, Std.OrientedOrd.eq_swap (a := f), Std.OrientedOrd.eq_swap (a := n)]

theorem unpacked_compare_swap (x y : UnpackedFloat) :
    y.compare x = (x.compare y).map Ordering.swap := by
  rcases x with ⟨_ | _⟩ | _ | ⟨_ | _⟩ | ⟨_ | _, m, e, hm⟩ <;>
    rcases y with ⟨_ | _⟩ | _ | ⟨_ | _⟩ | ⟨_ | _, n, f, hn⟩ <;>
    first
    | rfl
    | exact congrArg some (compare_then_swap e f m n)
    | exact congrArg (fun o : Ordering => some o.swap) (compare_then_swap e f m n)

theorem float_lt_iff (x y : Float) : x < y ↔ x.toModel.compare y.toModel = some .lt := by
  change Float.lt x y = true ↔ _
  rw [Float.lt, decide_eq_true_iff]
  exact beq_iff_eq

theorem float_beq_iff (x y : Float) :
    (x == y) = true ↔ x.toModel.compare y.toModel = some .eq := by
  change (x.toModel.unpack.compare y.toModel.unpack == some .eq) = true ↔ _
  exact beq_iff_eq

theorem model_compare_swap (x y : Float.Model) :
    y.compare x = (x.compare y).map Ordering.swap :=
  unpacked_compare_swap x.unpack y.unpack

end Floats

theorem compare_string_eq_lt (s t : String) : compare s t = .lt ↔ s < t :=
  compareOfLessAndEq_eq_lt

namespace Value

theorem order_swap (v w : Value) : w.order v = (v.order w).map Ordering.swap := by
  cases v <;> cases w <;> simp only [order, Option.map_some, Option.map_none]
  · rfl
  · rw [Std.OrientedOrd.eq_swap]
  · exact model_compare_swap _ _
  · rw [Std.OrientedOrd.eq_swap]
  · rw [Std.OrientedOrd.eq_swap]

theorem order_eq_lt {v w : Value} : v.order w = some .lt ↔ v.Precedes w := by
  constructor
  · intro h
    cases v <;> cases w <;> simp only [order, reduceCtorEq, Option.some.injEq] at h
    · exact .integer (Std.compare_eq_lt.1 h)
    · exact .float ((float_lt_iff _ _).2 h)
    · exact .string ((compare_string_eq_lt _ _).1 h)
    · rename_i a b
      cases a <;> cases b <;> first | exact .boolean | exact absurd h (by decide)
  · rintro (h | h | h | _)
    · exact congrArg some (Std.compare_eq_lt.2 h)
    · exact (float_lt_iff _ _).1 h
    · exact congrArg some ((compare_string_eq_lt _ _).2 h)
    · rfl

theorem order_eq_gt {v w : Value} : v.order w = some .gt ↔ w.Precedes v := by
  rw [← order_eq_lt, order_swap v w]
  cases v.order w with
  | none => simp
  | some o => cases o <;> simp

theorem order_eq_eq {v w : Value} : v.order w = some .eq ↔ v.equals w = true := by
  cases v <;> cases w <;> simp only [order, equals, reduceCtorEq, Option.some.injEq,
    Std.LawfulEqOrd.compare_eq_iff_eq, decide_eq_true_eq, Bool.false_eq_true]
  exact (float_beq_iff _ _).symm

end Value

theorem Comparison.holds_order (op : Comparison) (v w : Value) :
    op.holds (v.order w) = true ↔ op.Relates v w := by
  cases op <;>
    simp [holds, Relates, Value.order_eq_lt, Value.order_eq_gt, Value.order_eq_eq]

/-! ## The rules and the operators -/

theorem Value.isZero_iff {v : Value} : v.isZero = true ↔ v.IsZero := by
  constructor
  · intro h
    cases v with
    | unit | string s => cases h
    | integer i => exact of_decide_eq_true h ▸ .integer
    | float x => exact .float h
    | boolean b =>
      cases b
      · exact .boolean
      · cases h
  · rintro (_ | h | _)
    · rfl
    · exact h
    · rfl

instance (v : Value) : Decidable v.IsZero := decidable_of_iff _ Value.isZero_iff

theorem Arithmetic.compute_of_computes {op : Arithmetic} {u v w : Value}
    (hz : ¬ (op = .divide ∧ w.IsZero)) (h : op.Computes v w u) : op.compute v w = .ok u := by
  cases h <;> try rfl
  rename_i i j
  have hj : j ≠ 0 := by
    rintro rfl
    exact hz ⟨rfl, .integer⟩
  rw [compute, floorDiv_eq i j hj]

theorem Arithmetic.compute_cases (op : Arithmetic) {v w : Value} (ht : v.tag = w.tag) :
    (∃ u, op.Computes v w u) ∨
      (∀ u, ¬ op.Computes v w u) ∧ op.compute v w = .error (.arithmeticUnsupported op v.tag) := by
  cases v <;> cases w <;> cases ht <;> cases op <;>
    first
    | exact .inl ⟨_, by constructor⟩
    | exact .inr ⟨(by rintro u ⟨⟩), rfl⟩

theorem Operator.gives_apply (o : Operator) (v w : Value) : o.Gives v w (o.apply v w) := by
  cases o with
  | arithmetic op =>
    simp only [apply, Arithmetic.apply, Value.isZero_iff]
    split
    · next ht => exact .arithmeticMismatch op ht
    next ht =>
    have ht : v.tag = w.tag := Decidable.not_not.1 ht
    split
    · next hz =>
      obtain ⟨rfl, hz⟩ := hz
      exact .zeroDivisor ht hz v.shows_text
    · next hz =>
      rcases Arithmetic.compute_cases op ht with ⟨u, hu⟩ | ⟨hu, he⟩
      · exact Arithmetic.compute_of_computes hz hu ▸ .computed ht hz hu
      · exact he ▸ .unsupported ht hz hu
  | logical op =>
    cases v <;> cases w <;>
      first
      | exact .logicalMismatch op (by simp [Value.tag])
      | cases op <;> first | exact .conjunction _ _ | exact .disjunction _ _
  | comparison op =>
    simp only [apply, Comparison.apply]
    split
    · next ht => exact .comparisonMismatch op ht
    · next ht =>
      exact .compared (Decidable.not_not.1 ht) (Comparison.holds_order op v w)

/-- **The rules are the operators.** -/
theorem Operator.gives_iff {o : Operator} {v w : Value} {r : Except Cause Value} :
    o.Gives v w r ↔ r = o.apply v w := by
  refine ⟨fun h => ?_, fun h => h ▸ o.gives_apply v w⟩
  cases h with
  | computed ht hz h =>
    simp [apply, Arithmetic.apply, Value.isZero_iff, ht, hz, Arithmetic.compute_of_computes hz h]
  | zeroDivisor ht hz hs => simp [apply, Arithmetic.apply, Value.isZero_iff, ht, hz, hs.eq_text]
  | unsupported ht hz h =>
    rcases Arithmetic.compute_cases _ ht with ⟨u, hu⟩ | ⟨-, he⟩
    · exact absurd hu (h u)
    · simp [apply, Arithmetic.apply, Value.isZero_iff, ht, hz, he]
  | arithmeticMismatch op ht => simp [apply, Arithmetic.apply, ht]
  | conjunction a b | disjunction a b => rfl
  | logicalMismatch op ht =>
    cases v <;> cases w <;> first | rfl | exact absurd ht (by simp [Value.tag])
  | compared ht h =>
    rw [← Comparison.holds_order, ← Bool.eq_iff_iff] at h
    simp [apply, Comparison.apply, ht, h]
  | comparisonMismatch op ht => simp [apply, Comparison.apply, ht]

end ExprScript
