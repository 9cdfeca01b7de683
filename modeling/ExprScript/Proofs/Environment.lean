import ExprScript.Arena

/-!
# Environments in a growing arena

Records point to earlier ones, so the walk along an environment ends, and an arena that grows leaves
every environment it holds as it was.

* `Arena.Descends`, `Arena.Holds`: what every arena of an evaluation satisfies, and the environments
  that belong to it.
* `Arena.GrowsTo`: one arena is an initial part of another.
* `Arena.chain_some`: the chain of a record, by its parent.
* **`Arena.GrowsTo.chain_eq`**, `Arena.GrowsTo.lookup_eq`: growth changes no environment.
* `Arena.chain_extend`, `Arena.lookup_extend`: what one more binding changes.
-/

namespace ExprScript

namespace Arena

/-- Every record points to an earlier one, or to none. -/
def Descends (a : Arena) : Prop :=
  ∀ i b, a.records[i]? = some b → Env.bound b.parent ≤ i

/-- The environment is empty or one of the records. -/
def Holds (a : Arena) (env : Env) : Prop := Env.bound env ≤ a.size

/-- The records of `a` are the first ones of `b`. -/
def GrowsTo (a b : Arena) : Prop := a.records.toList <+: b.records.toList

@[simp]
theorem holds_none (a : Arena) : a.Holds none := Nat.zero_le _

theorem descends_empty : empty.Descends := by
  intro i b h
  simp [empty] at h

/-! ## Chains -/

@[simp]
theorem chain_none (a : Arena) : a.chain none = [] := rfl

theorem walk_eq_walk {a : Arena} (ha : a.Descends) (m n : Nat) (env : Env)
    (hm : Env.bound env ≤ m) (hn : Env.bound env ≤ n) : a.walk m env = a.walk n env := by
  induction m generalizing n env with
  | zero =>
    cases env with
    | none => cases n <;> rfl
    | some i => exact absurd hm (Nat.not_succ_le_zero i)
  | succ m ih =>
    cases env with
    | none => cases n <;> rfl
    | some i =>
      obtain ⟨n, rfl⟩ : ∃ k, n = k + 1 := ⟨n - 1, by simp only [Env.bound] at hn; omega⟩
      rw [walk, walk]
      split
      · next b hb =>
        have hp := ha i b hb
        simp only [Env.bound] at hm hn
        rw [ih n b.parent (by omega) (by omega)]
      · rfl

theorem chain_some {a : Arena} (ha : a.Descends) {i : Nat} {b : Binding}
    (hb : a.records[i]? = some b) : a.chain (some i) = b :: a.chain b.parent := by
  rw [chain, Env.bound, walk, hb]
  simp only [List.cons.injEq, true_and]
  exact walk_eq_walk ha _ _ _ (ha i b hb) (Nat.le_refl _)

/-! ## Growth -/

namespace GrowsTo

variable {a b c : Arena}

theorem refl (a : Arena) : a.GrowsTo a := List.prefix_rfl

theorem trans (h : a.GrowsTo b) (k : b.GrowsTo c) : a.GrowsTo c := List.IsPrefix.trans h k

theorem size_le (h : a.GrowsTo b) : a.size ≤ b.size := by
  simpa [size] using h.length_le

theorem holds (h : a.GrowsTo b) {env : Env} (he : a.Holds env) : b.Holds env :=
  Nat.le_trans he h.size_le

theorem getElem?_eq (h : a.GrowsTo b) {i : Nat} (hi : i < a.size) :
    b.records[i]? = a.records[i]? := by
  obtain ⟨rest, hr⟩ := h
  rw [← Array.getElem?_toList, ← Array.getElem?_toList, ← hr]
  exact List.getElem?_append_left (by simpa [size] using hi)

theorem walk_eq (h : a.GrowsTo b) (ha : a.Descends) (n : Nat) {env : Env} (he : a.Holds env) :
    b.walk n env = a.walk n env := by
  induction n generalizing env with
  | zero => rfl
  | succ n ih =>
    cases env with
    | none => rfl
    | some i =>
      rw [walk, walk, h.getElem?_eq he]
      split
      · next r hr =>
        have hp : Env.bound r.parent ≤ a.size :=
          Nat.le_trans (ha i r hr) (Nat.le_of_lt he)
        rw [ih hp]
      · rfl

/-- **Growth changes no environment.** -/
theorem chain_eq (h : a.GrowsTo b) (ha : a.Descends) {env : Env} (he : a.Holds env) :
    b.chain env = a.chain env :=
  h.walk_eq ha _ he

theorem lookup_eq (h : a.GrowsTo b) (ha : a.Descends) {env : Env} (he : a.Holds env)
    (x : String) : b.lookup env x = a.lookup env x := by
  rw [lookup_eq_find?, lookup_eq_find?, h.chain_eq ha he]

end GrowsTo

/-! ## One more binding -/

section Extend

variable (a : Arena) (env : Env) (x : String) (v : Value)

theorem growsTo_extend : a.GrowsTo (a.extend env x v).2 := by
  simp [GrowsTo, extend]

theorem holds_extend : (a.extend env x v).2.Holds (a.extend env x v).1 := by
  simp [Holds, extend, Env.bound, size]

theorem getElem?_extend : (a.extend env x v).2.records[a.size]? = some ⟨x, v, env⟩ := by
  simp [extend, size]

variable {a env}

theorem descends_extend (ha : a.Descends) (he : a.Holds env) :
    (a.extend env x v).2.Descends := by
  intro i b hb
  by_cases hi : i < a.size
  · rw [(growsTo_extend a env x v).getElem?_eq hi] at hb
    exact ha i b hb
  · have hs : i < a.size + 1 := by
      have := (Array.getElem?_eq_some_iff.1 hb).1
      simpa [extend, size] using this
    obtain rfl : i = a.size := by omega
    rw [getElem?_extend] at hb
    cases hb
    exact he

theorem chain_extend (ha : a.Descends) (he : a.Holds env) :
    (a.extend env x v).2.chain (a.extend env x v).1 = ⟨x, v, env⟩ :: a.chain env := by
  have hg := growsTo_extend a env x v
  rw [← hg.chain_eq ha he]
  exact chain_some (descends_extend x v ha he) (getElem?_extend a env x v)

theorem lookup_extend (ha : a.Descends) (he : a.Holds env) (y : String) :
    (a.extend env x v).2.lookup (a.extend env x v).1 y =
      if x = y then some ⟨x, v, env⟩ else a.lookup env y := by
  rw [lookup_eq_find?, lookup_eq_find?, chain_extend x v ha he]
  by_cases h : x = y <;> simp [h]

end Extend

end Arena

end ExprScript
