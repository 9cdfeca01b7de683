import ExprScript.Proofs.Agreement
import ExprScript.Proofs.Operation
import Mathlib.Algebra.MvPolynomial.Eval

/-!
# Integer polynomials

Sums, differences and products of words wrap at every step, but wrapping respects all three: it is a
map of rings from the integers to the words. So an expression built from them may be computed
without bounds and wrapped once, at the end, and expressions that are the same polynomial have the
same value.

* `Expr.Integral`: integers, names, sums, differences and products.
* `Expr.inRing`: the value of such an expression in any ring; `Integral.map_inRing`: maps of rings
  respect it. Over the integers it is the exact value, over polynomials `Expr.polynomial`.
* `Machine.HasIntegers`: the names of a list have given integers for values.
* **`Integral.eval_eq`**: evaluation gives the exact value, wrapped.
-/

namespace ExprScript

namespace Expr

/-- The expressions built from integers and names by sums, differences and products. -/
inductive Integral : Expr → Prop
  | literal (i : Int64) : Integral (literal (.integer i))
  | var (x : String) : Integral (var x)
  | add {l r : Expr} (hl : Integral l) (hr : Integral r) : Integral (arithmetic .add l r)
  | subtract {l r : Expr} (hl : Integral l) (hr : Integral r) : Integral (arithmetic .subtract l r)
  | multiply {l r : Expr} (hl : Integral l) (hr : Integral r) : Integral (arithmetic .multiply l r)

/-! ## Values in a ring -/

section Ring

variable {R S : Type*} [CommRing R] [CommRing S]

/-- The value in a ring of an integral expression whose names have the values `ρ`. -/
def inRing (ρ : String → R) : Expr → R
  | literal (.integer i) => (i.toInt : R)
  | var x => ρ x
  | arithmetic .add l r => l.inRing ρ + r.inRing ρ
  | arithmetic .subtract l r => l.inRing ρ - r.inRing ρ
  | arithmetic .multiply l r => l.inRing ρ * r.inRing ρ
  | _ => 0

theorem Integral.map_inRing {e : Expr} (he : e.Integral) (f : R →+* S) (ρ : String → R) :
    f (e.inRing ρ) = e.inRing (f ∘ ρ) := by
  induction he with
  | literal i => simp [inRing]
  | var x => simp [inRing]
  | add _ _ ihl ihr => simp [inRing, ihl, ihr]
  | subtract _ _ ihl ihr => simp [inRing, ihl, ihr]
  | multiply _ _ ihl ihr => simp [inRing, ihl, ihr]

end Ring

/-- An integral expression as a polynomial in its names. -/
noncomputable def polynomial (e : Expr) : MvPolynomial String ℤ := e.inRing MvPolynomial.X

theorem Integral.eval_polynomial {e : Expr} (he : e.Integral) (ρ : String → ℤ) :
    MvPolynomial.eval ρ e.polynomial = e.inRing ρ := by
  rw [polynomial, he.map_inRing]
  exact congrArg (inRing · e) (funext fun x => MvPolynomial.eval_X x)

end Expr

/-! ## Evaluation -/

/-- The values of the names `xs` are the integers that `ρ` says. -/
def Machine.HasIntegers (m : Machine) (env : Env) (ρ : String → Int64) (xs : List String) : Prop :=
  ∀ x ∈ xs, ∃ b, m.arena.lookup env x = some b ∧ b.value = .integer (ρ x)

variable {m : Machine} {env : Env} {ρ : String → Int64} {rounds : Nat}

theorem Machine.hasIntegers_append {xs ys : List String} :
    m.HasIntegers env ρ (xs ++ ys) ↔ m.HasIntegers env ρ xs ∧ m.HasIntegers env ρ ys :=
  List.forall_mem_append

namespace Expr

theorem eval_var_of_hasIntegers {x : String} (h : m.HasIntegers env ρ [x]) :
    (var x).eval rounds env m = some (.ok ⟨.integer (ρ x), env⟩, m) := by
  obtain ⟨b, hb, hv⟩ := h x List.mem_cons_self
  have hread : Action.read env x m = some (.ok ⟨b.value, env⟩, m) := by rw [Action.read_apply, hb]
  rw [← hv]
  exact hread

theorem eval_binary_of_ok {o : Operator} {l r : Expr} {u v w : Value}
    (hl : l.eval rounds env m = some (.ok ⟨v, env⟩, m))
    (hr : r.eval rounds env m = some (.ok ⟨w, env⟩, m)) (h : o.apply v w = .ok u) :
    (binary o l r).eval rounds env m = some (.ok ⟨u, env⟩, m) := by
  rw [eval_binary, Attempt.bind_of_ok hl, Attempt.bind_of_ok hr, h]
  rfl

/-- **Evaluation gives the exact value, wrapped.** -/
theorem Integral.eval_eq {e : Expr} (he : e.Integral) (hm : m.HasIntegers env ρ e.names) :
    e.eval rounds env m =
      some (.ok ⟨.integer (.ofInt (e.inRing fun x => (ρ x).toInt)), env⟩, m) := by
  induction he with
  | literal i => simp only [inRing, Int.cast_id, Int64.ofInt_toInt]; rfl
  | var x => simpa only [inRing, Int64.ofInt_toInt] using eval_var_of_hasIntegers hm
  | add hl hr ihl ihr =>
    obtain ⟨ml, mr⟩ := Machine.hasIntegers_append.1 hm
    rw [inRing, Int64.ofInt_add]
    exact eval_binary_of_ok (o := .arithmetic .add) (ihl ml) (ihr mr) rfl
  | subtract hl hr ihl ihr =>
    obtain ⟨ml, mr⟩ := Machine.hasIntegers_append.1 hm
    rw [inRing, Int64.ofInt_sub]
    exact eval_binary_of_ok (o := .arithmetic .subtract) (ihl ml) (ihr mr) rfl
  | multiply hl hr ihl ihr =>
    obtain ⟨ml, mr⟩ := Machine.hasIntegers_append.1 hm
    rw [inRing, Int64.ofInt_mul]
    exact eval_binary_of_ok (o := .arithmetic .multiply) (ihl ml) (ihr mr) rfl

theorem Integral.eval_congr {e f : Expr} (he : e.Integral) (hf : f.Integral)
    (hem : m.HasIntegers env ρ e.names) (hfm : m.HasIntegers env ρ f.names)
    (h : e.polynomial = f.polynomial) : e.eval rounds env m = f.eval rounds env m := by
  rw [he.eval_eq hem, hf.eval_eq hfm, ← he.eval_polynomial, h, hf.eval_polynomial]

end Expr

/-- **Integer expressions compute modulo `2 ^ 64`:** the value is the exact one, wrapped, so equal
polynomials evaluate alike. -/
theorem integral_eval_modulo {e : Expr} (he : e.Integral) (hm : m.HasIntegers env ρ e.names)
    (rounds : Nat) :
    (∃ w : Int64, e.eval rounds env m = some (.ok ⟨.integer w, env⟩, m) ∧
      w.toInt = (e.inRing fun x => (ρ x).toInt).bmod (2 ^ 64)) ∧
    ∀ f : Expr, f.Integral → m.HasIntegers env ρ f.names → f.polynomial = e.polynomial →
      f.eval rounds env m = e.eval rounds env m :=
  ⟨⟨_, he.eval_eq hm, Int64.toInt_ofInt⟩, fun _ hf hfm h => hf.eval_congr he hfm hm h⟩

/-- Both expressions come to the least integer, and wrap at different places. -/
theorem integral_eval_modulo_greatest :
    let x := Expr.var "x"
    let one := Expr.literal (.integer 1)
    let two := Expr.literal (.integer 2)
    let e := Expr.arithmetic .multiply (.arithmetic .add x one) (.arithmetic .subtract x two)
    let f := Expr.arithmetic .subtract (.arithmetic .subtract (.arithmetic .multiply x x) x) two
    let m : Machine := ⟨⟨#[⟨"x", .integer .maxValue, none⟩]⟩, .unlimited⟩
    e.Integral ∧ f.Integral ∧ m.HasIntegers (some 0) (fun _ => .maxValue) e.names ∧
      m.HasIntegers (some 0) (fun _ => .maxValue) f.names ∧ f.polynomial = e.polynomial ∧
      (∃ w : Int64, e.eval 0 (some 0) m = some (.ok ⟨.integer w, some 0⟩, m) ∧
        w.toInt = -2 ^ 63) ∧
      f.eval 0 (some 0) m = e.eval 0 (some 0) m := by
  intro x one two e f m
  have he : e.Integral := .multiply (.add (.var _) (.literal _)) (.subtract (.var _) (.literal _))
  have hf : f.Integral :=
    .subtract (.subtract (.multiply (.var _) (.var _)) (.var _)) (.literal _)
  have hm : ∀ xs ⊆ ["x"], m.HasIntegers (some 0) (fun _ => .maxValue) xs := by
    intro xs hxs y hy
    obtain rfl : y = "x" := by simpa using hxs hy
    exact ⟨_, rfl, rfl⟩
  have hem := hm e.names (by simp [e, x, one, two, Expr.names])
  have hfm := hm f.names (by simp [f, x, two, Expr.names])
  have hp : f.polynomial = e.polynomial := by
    simp only [Expr.polynomial, Expr.inRing, e, f, x, one, two]
    have h1 : (1 : Int64).toInt = 1 := rfl
    have h2 : (2 : Int64).toInt = 2 := rfl
    rw [h1, h2]
    push_cast
    ring
  obtain ⟨⟨w, hw, hval⟩, hother⟩ := integral_eval_modulo he hem 0
  exact ⟨he, hf, hem, hfm, hp, ⟨w, hw, hval.trans (by decide)⟩, hother f hf hfm hp⟩

end ExprScript
