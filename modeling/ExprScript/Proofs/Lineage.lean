import ExprScript.Proofs.TagStability

/-!
# No binding is lost

The environment that an evaluation comes to leads back to the one it started from, over records that
the evaluation has made, later ones first. An assignment could be lost in one way only: by going on
from an environment other than the one it gave. That happens in one place, where a loop gives up the
environment of the condition that ended it. So if no condition of a loop assigns anything, the way
back leads over all records that were made.

* `Arena.Leads`: the way from one environment back to another, by the indices of the records.
* `Expr.QuietConditions`: no condition of a loop assigns anything.
* `Expr.Affects.leads`: the way back; under quiet conditions it leaves nothing out.
* **`Expr.eval_lineage`**: the chain of the environment that an evaluation comes to.
-/

namespace ExprScript

namespace Arena

/-- From the second environment the pointers lead over the records at these indices to `env`. -/
inductive Leads (a : Arena) (env : Env) : Env → List Nat → Prop
  | here : Leads a env env []
  | step {i : Nat} {b : Binding} {is : List Nat} (hb : a.records[i]? = some b)
      (h : Leads a env b.parent is) : Leads a env (some i) (i :: is)

namespace Leads

variable {a b : Arena} {env env' : Env} {is : List Nat}

theorem grow (h : a.Leads env env' is) (hab : a.GrowsTo b) : b.Leads env env' is := by
  induction h with
  | here => exact .here
  | step hb _ ih =>
    have hi := (Array.getElem?_eq_some_iff.1 hb).1
    exact .step ((hab.getElem?_eq hi).trans hb) ih

theorem extend (h : a.Leads env env' is) (x : String) (v : Value) :
    (a.extend env' x v).2.Leads env (a.extend env' x v).1 (a.size :: is) :=
  .step (getElem?_extend a env' x v) (h.grow (growsTo_extend a env' x v))

theorem chain_eq (h : a.Leads env env' is) (ha : a.Descends) :
    a.chain env' = is.filterMap (a.records[·]?) ++ a.chain env := by
  induction h with
  | here => rfl
  | step hb _ ih =>
    rw [chain_some ha hb, List.filterMap_cons_some hb, ih]
    rfl

end Leads

theorem size_extend (a : Arena) (env : Env) (x : String) (v : Value) :
    (a.extend env x v).2.size = a.size + 1 := by
  simp [extend, size]

theorem filterMap_range' (a : Arena) (n k : Nat) (h : n + k = a.size) :
    (List.range' n k).filterMap (a.records[·]?) = a.records.toList.drop n := by
  induction k generalizing n with
  | zero =>
    have hn : a.records.toList.length ≤ n := Nat.le_of_eq h.symm
    rw [List.drop_eq_nil_of_le hn]
    rfl
  | succ k ih =>
    have hn : n < a.records.toList.length := by
      rw [Array.length_toList, ← size]
      omega
    rw [List.range'_succ, List.drop_eq_getElem_cons hn, ← ih (n + 1) (by omega),
      Array.getElem_toList]
    exact List.filterMap_cons_some (Array.getElem?_eq_getElem hn)

end Arena

/-- No condition of a loop assigns anything. -/
def Expr.QuietConditions (e : Expr) : Prop :=
  ∀ c b, loop c b ∈ e.parts → ∀ x, ¬ c.Assigns x

/-- **The way back leads over records that the evaluation has made.** -/
theorem Expr.Affects.leads {e : Expr} {env env' : Env} {m m' : Machine}
    (h : e.Affects env m env' m') :
    ∃ is, m'.arena.Leads env env' is ∧ is.Pairwise (· > ·) ∧
      (∀ i ∈ is, m.arena.size ≤ i ∧ i < m'.arena.size) ∧
      (e.QuietConditions →
        is = (List.range' m.arena.size (m'.arena.size - m.arena.size)).reverse) := by
  induction h with
  | refl => exact ⟨[], .here, .nil, by simp, fun _ => by simp⟩
  | @bind e a x env env' m m' h _ v _ ih =>
    obtain ⟨is, hleads, hdesc, hmade, hall⟩ := ih
    have hle := h.evolves.growsTo.size_le
    have hsize := m'.arena.size_extend env' x v
    refine ⟨m'.arena.size :: is, hleads.extend x v, ?_, ?_, fun hq => ?_⟩
    · exact List.pairwise_cons.2 ⟨fun i hi => (hmade i hi).2, hdesc⟩
    · rw [Machine.extend_arena, hsize]
      refine List.forall_mem_cons.2 ⟨⟨hle, Nat.lt_succ_self _⟩, fun i hi => ?_⟩
      exact ⟨(hmade i hi).1, Nat.lt_succ_of_lt (hmade i hi).2⟩
    · have hsucc : m'.arena.size + 1 - m.arena.size = m'.arena.size - m.arena.size + 1 := by omega
      have hlast : m.arena.size + (m'.arena.size - m.arena.size) = m'.arena.size := by omega
      rw [Machine.extend_arena, hsize, hsucc, List.range'_1_concat, List.reverse_concat, hlast,
        hall hq]
  | write _ _ _ ih => exact ih
  | @drop e c b env env₁ env₂ m m₁ m₂ _ hl k ih _ =>
    obtain ⟨is, hleads, hdesc, hmade, hall⟩ := ih
    have hgrows := k.evolves.growsTo
    refine ⟨is, hleads.grow hgrows, hdesc, fun i hi => ?_, fun hq => ?_⟩
    · exact ⟨(hmade i hi).1, Nat.lt_of_lt_of_le (hmade i hi).2 hgrows.size_le⟩
    -- the condition has made nothing that could be given up
    · rw [(k.arena_eq (hq c b hl)).2]
      exact hall hq

/-- **No binding is lost or reordered.** If no condition of a loop assigns anything, the depth grows
as the arena does. -/
theorem Expr.eval_lineage {rounds : Nat} {e : Expr} {env : Env} {m m' : Machine} {r : Evaluation}
    (hm : m.Sound env) (h : e.eval rounds env m = some (.ok r, m')) :
    m.arena.GrowsTo m'.arena ∧
      ∃ is : List Nat, m'.arena.Leads env r.env is ∧ is.Pairwise (· > ·) ∧
        (∀ i ∈ is, m.arena.size ≤ i ∧ i < m'.arena.size) ∧
        m'.arena.chain r.env = is.filterMap (m'.arena.records[·]?) ++ m.arena.chain env ∧
        (e.QuietConditions →
          (∀ i, m.arena.size ≤ i → i < m'.arena.size → i ∈ is) ∧
          m'.arena.chain r.env =
            (m'.arena.records.toList.drop m.arena.size).reverse ++ m.arena.chain env ∧
          m'.arena.depth r.env = m.arena.depth env + (m'.arena.size - m.arena.size)) := by
  have haffects := (e.eval_covered rounds env).ok h
  have hgrows := haffects.evolves.growsTo
  obtain ⟨is, hleads, hdesc, hmade, hall⟩ := haffects.leads
  have hchain : m'.arena.chain r.env =
      is.filterMap (m'.arena.records[·]?) ++ m.arena.chain env := by
    rw [hleads.chain_eq (haffects.evolves.sound hm).descends, haffects.evolves.chain_eq hm]
  refine ⟨hgrows, is, hleads, hdesc, hmade, hchain, fun hq => ?_⟩
  have hle := hgrows.size_le
  have hrecords : m'.arena.chain r.env =
      (m'.arena.records.toList.drop m.arena.size).reverse ++ m.arena.chain env := by
    rw [hchain, hall hq, List.filterMap_reverse, Arena.filterMap_range' _ _ _ (by omega)]
  refine ⟨fun i hi hi' => ?_, hrecords, ?_⟩
  · rw [hall hq, List.mem_reverse, List.mem_range'_1]
    omega
  · rw [Arena.depth, hrecords, List.length_append, List.length_reverse, List.length_drop,
      Array.length_toList, Nat.add_comm]
    rfl

theorem Expr.eval_lineage_counting :
    let count := Expr.loop (.comparison .less (.var "n") (.literal (.integer 3)))
      (.assign "n" (.arithmetic .add (.var "n") (.literal (.integer 1))))
    let m := Session.counting.machine
    let two : Binding := ⟨"n", .integer 2, some 0⟩
    let three : Binding := ⟨"n", .integer 3, some 1⟩
    let m' : Machine := ⟨⟨m.arena.records ++ #[two, three]⟩, .unlimited⟩
    m.Sound (some 0) ∧ count.eval 3 (some 0) m = some (.ok ⟨.integer 3, some 2⟩, m') ∧
      count.QuietConditions ∧
      m'.arena.chain (some 2) = [three, two] ++ m.arena.chain (some 0) ∧
      m'.arena.depth (some 2) = m.arena.depth (some 0) + 2 := by
  intro count m two three m'
  have hsound : m.Sound (some 0) :=
    Session.reachable_counting.sound (some 0) (by simp [Session.counting])
  have hcount : count.eval 3 (some 0) m = some (.ok ⟨.integer 3, some 2⟩, m') := by rfl
  have hquiet : count.QuietConditions := by simp [count, QuietConditions, Assigns, parts]
  obtain ⟨-, is, -, -, -, -, h⟩ := Expr.eval_lineage hsound hcount
  exact ⟨hsound, hcount, hquiet, (h hquiet).2⟩

-- the record that a condition makes before it ends the loop stands in front of nothing
example : (Expr.loop (.sequence [.assign "c" (.literal (.integer 1)), .literal (.boolean false)])
    .unit).eval 1 none (.fresh .unlimited) =
      some (.ok (.unit none), ⟨⟨#[⟨"c", .integer 1, none⟩]⟩, .unlimited⟩) := rfl

end ExprScript
