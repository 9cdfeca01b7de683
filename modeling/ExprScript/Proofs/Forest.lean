import ExprScript.Proofs.Environment

/-!
# Environments are the branches of a forest

Whichever environments are extended, and in whichever order, records point to earlier ones only.
Following the pointers from an environment therefore comes to an end, after no more records than
there are, and never leaves the arena. What is met on the way is the environment: a list that an
extension puts one entry in front of, in a branch of its own.

* `Arena.Offers`: the arenas that extensions lead to, and the environments handed out.
* `Arena.Walks`: the records met on the way from an environment, pointer by pointer.
* `Arena.walks_iff`: they are its chain; `Arena.Walks.length_le`: there are no more than records.
* **`Arena.Offers.forest`**: what an environment is, and what an extension does to all of them.
-/

namespace ExprScript

namespace Arena

/-- The arena comes about by extensions, each of the empty environment or of one handed out before.
The environments handed out are listed, the latest first. -/
inductive Offers : Arena → List Env → Prop
  | empty : Offers .empty [none]
  | extend {a : Arena} {envs : List Env} {env : Env} (h : Offers a envs) (he : env ∈ envs)
      (x : String) (v : Value) : Offers (a.extend env x v).2 ((a.extend env x v).1 :: envs)

/-- **What extensions preserve.** -/
theorem Offers.sound {a : Arena} {envs : List Env} (h : a.Offers envs) :
    a.Descends ∧ ∀ env ∈ envs, a.Holds env := by
  induction h with
  | empty =>
    refine ⟨descends_empty, fun env he => ?_⟩
    obtain rfl : env = none := by simpa using he
    exact holds_none _
  | @extend a envs env _ he x v ih =>
    obtain ⟨hd, hh⟩ := ih
    refine ⟨descends_extend x v hd (hh env he), fun old hold => ?_⟩
    rcases List.mem_cons.1 hold with rfl | hold
    · exact holds_extend a env x v
    · exact (growsTo_extend a env x v).holds (hh old hold)

/-! ## Following the pointers -/

/-- From the environment on, the records met are these, and the last of them points to none. There
is no way on from an index without a record. -/
inductive Walks (a : Arena) : Env → List Binding → Prop
  | done : Walks a none []
  | step {i : Nat} {b : Binding} {bs : List Binding} (hb : a.records[i]? = some b)
      (h : Walks a b.parent bs) : Walks a (some i) (b :: bs)

theorem Walks.chain_eq {a : Arena} (ha : a.Descends) {env : Env} {bs : List Binding}
    (h : a.Walks env bs) : a.chain env = bs := by
  induction h with
  | done => rfl
  | step hb _ ih => rw [chain_some ha hb, ih]

theorem walks_chain {a : Arena} (ha : a.Descends) {env : Env} (he : a.Holds env) :
    a.Walks env (a.chain env) := by
  -- the parent of a record is further down, so that the induction is on the index
  induction hn : Env.bound env using Nat.strongRecOn generalizing env with
  | ind n ih =>
    cases env with
    | none => exact .done
    | some i =>
      have hi : i < a.records.size := he
      have hb : a.records[i]? = some a.records[i] := Array.getElem?_eq_getElem hi
      have hparent := ha i _ hb
      simp only [Env.bound] at hn
      rw [chain_some ha hb]
      refine .step hb (ih _ (by omega) ?_ rfl)
      exact Nat.le_trans hparent (Nat.le_of_lt hi)

/-- **The chain of an environment is what its pointers lead to.** -/
theorem walks_iff {a : Arena} (ha : a.Descends) {env : Env} (he : a.Holds env)
    {bs : List Binding} : a.Walks env bs ↔ a.chain env = bs :=
  ⟨fun h => h.chain_eq ha, fun h => h ▸ walks_chain ha he⟩

theorem Walks.length_le {a : Arena} (ha : a.Descends) {env : Env} {bs : List Binding}
    (h : a.Walks env bs) : bs.length ≤ Env.bound env := by
  induction h with
  | done => exact Nat.le_refl 0
  | @step i b bs hb _ ih =>
    have hparent := ha i b hb
    simp only [Env.bound, List.length_cons]
    omega

/-! ## Names along a chain -/

theorem find?_name_eq_some_iff {bs : List Binding} {x : String} {b : Binding} :
    bs.find? (·.name = x) = some b ↔
      ∃ inner outer, bs = inner ++ b :: outer ∧ b.name = x ∧ ∀ c ∈ inner, c.name ≠ x := by
  rw [List.find?_eq_some_iff_append]
  simp only [decide_eq_true_eq, Bool.not_eq_true', decide_eq_false_iff_not]
  constructor
  · rintro ⟨hb, inner, outer, hbs, hinner⟩
    exact ⟨inner, outer, hbs, hb, hinner⟩
  · rintro ⟨inner, outer, hbs, hb, hinner⟩
    exact ⟨hb, inner, outer, hbs, hinner⟩

theorem find?_name_eq_none_iff {bs : List Binding} {x : String} :
    bs.find? (·.name = x) = none ↔ ∀ b ∈ bs, b.name ≠ x := by
  simp

/-! ## The forest -/

/-- **Environments are the branches of a forest.** Their pointers come to an end, and an extension
leaves all other branches as they were. -/
theorem Offers.forest {a : Arena} {envs : List Env} (h : a.Offers envs) :
    (∀ (i : Nat) (b : Binding) (j : Nat), a.records[i]? = some b → b.parent = some j → j < i) ∧
      ∀ env ∈ envs, ∃ bs, a.Walks env bs ∧ (∀ cs, a.Walks env cs → cs = bs) ∧
        a.depth env = bs.length ∧ bs.length ≤ a.size ∧
        (∀ x b, a.lookup env x = some b ↔
          ∃ inner outer, bs = inner ++ b :: outer ∧ b.name = x ∧ ∀ c ∈ inner, c.name ≠ x) ∧
        (∀ x, a.lookup env x = none ↔ ∀ b ∈ bs, b.name ≠ x) ∧
        a.render env = ", ".intercalate (bs.map fun b =>
          b.name ++ ": (" ++ b.value.text ++ ", " ++ b.value.tag.name ++ ")") ∧
        ∀ x v env' a', a.extend env x v = (env', a') →
          a'.Walks env' (⟨x, v, env⟩ :: bs) ∧
          (∀ old ∈ envs, ∀ cs, a.Walks old cs ↔ a'.Walks old cs) ∧
          a'.lookup env' x = some ⟨x, v, env⟩ ∧
          ∀ y, y ≠ x → a'.lookup env' y = a.lookup env y := by
  obtain ⟨hd, hh⟩ := h.sound
  refine ⟨fun i b j hb hj => ?_, fun env he => ?_⟩
  · have hparent := hd i b hb
    rwa [hj] at hparent
  have hwalks := walks_chain hd (hh env he)
  refine ⟨a.chain env, hwalks, fun cs hcs => (hcs.chain_eq hd).symm, rfl,
    Nat.le_trans (hwalks.length_le hd) (hh env he), fun x b => ?_, fun x => ?_, rfl, ?_⟩
  · rw [lookup_eq_find?, find?_name_eq_some_iff]
  · rw [lookup_eq_find?, find?_name_eq_none_iff]
  intro x v env' a' hext
  obtain rfl : env' = (a.extend env x v).1 := by rw [hext]
  obtain rfl : a' = (a.extend env x v).2 := by rw [hext]
  have hgrows := growsTo_extend a env x v
  have hd' := descends_extend x v hd (hh env he)
  refine ⟨?_, fun old hold cs => ?_, ?_, fun y hy => ?_⟩
  · exact (walks_iff hd' (holds_extend a env x v)).2 (chain_extend x v hd (hh env he))
  · rw [walks_iff hd (hh old hold), walks_iff hd' (hgrows.holds (hh old hold)),
      hgrows.chain_eq hd (hh old hold)]
  · rw [lookup_extend x v hd (hh env he), if_pos rfl]
  · rw [lookup_extend x v hd (hh env he), if_neg (Ne.symm hy)]

theorem forest_two_branches :
    let x : Binding := ⟨"x", .integer 1, none⟩
    let y : Binding := ⟨"y", .boolean true, some 0⟩
    let a : Arena := ⟨#[x, y, ⟨"z", .string "z", some 0⟩]⟩
    let envs : List Env := [some 2, some 1, some 0, none]
    a.Offers envs ∧ some 1 ∈ envs ∧ a.Walks (some 1) [y, x] ∧ a.depth (some 1) = 2 ∧
      a.lookup (some 1) "z" = none ∧ a.render (some 1) = "y: (true, Boolean), x: (1, Integer)" := by
  intro x y a envs
  have hx : Offers ⟨#[x]⟩ [some 0, none] := .extend .empty (by simp) "x" (.integer 1)
  have hy : Offers ⟨#[x, y]⟩ [some 1, some 0, none] := .extend hx (by simp) "y" (.boolean true)
  have hz : a.Offers envs := .extend hy (by simp) "z" (.string "z")
  have hmem : some 1 ∈ envs := by simp [envs]
  have hwalks : a.Walks (some 1) [y, x] := .step rfl (.step rfl .done)
  obtain ⟨bs, -, hunique, hdepth, -, -, hnone, htext, -⟩ := hz.forest.2 (some 1) hmem
  obtain rfl := hunique _ hwalks
  exact ⟨hz, hmem, hwalks, hdepth, (hnone "z").2 (by simp [x, y]), htext.trans (by decide)⟩

end Arena

end ExprScript
