import ExprScript.Proofs.Agreement
import ExprScript.Proofs.Capacity
import ExprScript.Proofs.Forest

/-!
# What an expression does not name

An evaluation has nothing to do with names that its expression does not contain. A name that is not
assigned in it keeps its innermost binding: the records that come to stand in front of the
environment all bear names that are assigned. And what other names stand for, how often they were
bound and where in the arena, is not seen: from two environments that agree on the names of the
expression, even of machines that have nothing else in common, evaluation ends alike.

* `Expr.Affects.front`: the records in front of the environment.
* `Sink.Reliable`: sinks that do not fail.
* `AlikeOn`: two evaluations end alike, as far as some names can tell.
* **`Expr.eval_confined`**: what is not assigned is kept, and what is not named is not seen.
-/

namespace ExprScript

/-! ## Names that are not assigned -/

/-- **What comes to stand in front of an environment** are bindings of names that are assigned. -/
theorem Expr.Affects.front {e : Expr} {env env' : Env} {m m' : Machine}
    (h : e.Affects env m env' m') (hm : m.Sound env) :
    ∃ news, m'.arena.chain env' = news ++ m.arena.chain env ∧ ∀ b ∈ news, e.Assigns b.name := by
  induction h with
  | refl => exact ⟨[], rfl, by simp⟩
  | @bind e a x env env' m m' h ha v _ ih =>
    obtain ⟨news, hnews, hnames⟩ := ih hm
    have hs := h.evolves.sound hm
    refine ⟨⟨x, v, env'⟩ :: news, ?_, ?_⟩
    · rw [Machine.extend_arena, Arena.chain_extend x v hs.descends hs.holds, hnews]
      rfl
    · exact List.forall_mem_cons.2 ⟨⟨a, ha⟩, hnames⟩
  | write _ _ _ ih => exact ih hm
  | drop h _ k ih _ =>
    -- the records of the condition stand in front of an environment that is given up
    obtain ⟨news, hnews, hnames⟩ := ih hm
    exact ⟨news, (k.evolves.chain_eq (h.evolves.sound hm)).trans hnews, hnames⟩

theorem find?_name_append {news bs : List Binding} {x : String} (h : ∀ b ∈ news, b.name ≠ x) :
    (news ++ bs).find? (·.name = x) = bs.find? (·.name = x) := by
  rw [List.find?_append, Arena.find?_name_eq_none_iff.2 h, Option.none_or]

/-! ## Names that do not occur -/

/-- The sink takes in all that is written to it. -/
def Sink.Reliable (s : Sink) : Prop := s.limit = none ∧ s.flushFails = false

theorem Sink.Reliable.fits {s : Sink} (h : s.Reliable) (n : Nat) : s.Fits n := by
  rw [fits_iff, h.1]
  simp

theorem Sink.Reliable.not_fills {s : Sink} (h : s.Reliable) (n : Nat) : ¬ s.Fills n := by
  intro hn
  have := (hn (n + 1)).1 (h.fits _)
  omega

theorem Sink.Reliable.roomier {j k : Sink} (hj : j.Reliable) (hk : k.Reliable) : j.Roomier k where
  fits := fun _ => hj.fits _
  flush := by simp [flush, hj.2, hk.2]

/-- Two evaluations, begun on the machines `m` and `n`, end alike. Both give the same value, in
environments where the names in `S` have the same values or none, or the same fault, and both have
written the same bytes. -/
inductive AlikeOn (S : List String) (m n : Machine) :
    Option (Except Cause Evaluation × Machine) → Option (Except Cause Evaluation × Machine) → Prop
  | spent : AlikeOn S m n none none
  | value {r s : Evaluation} {m' n' : Machine} {out : ByteArray} (hv : r.value = s.value)
      (he : ∀ x ∈ S, (m'.arena.lookup r.env x).map Binding.value =
        (n'.arena.lookup s.env x).map Binding.value)
      (hm : m'.sink = m.sink.keep out) (hn : n'.sink = n.sink.keep out) :
      AlikeOn S m n (some (.ok r, m')) (some (.ok s, n'))
  | fault (c : Cause) {m' n' : Machine} {out : ByteArray} (hm : m'.sink = m.sink.keep out)
      (hn : n'.sink = n.sink.keep out) : AlikeOn S m n (some (.error c, m')) (some (.error c, n'))

theorem Together.alikeOn {S : List String} {es fs : List (String × Value)} {m n : Machine}
    {p q o : Option (Except Cause Evaluation × Machine)} (hbase : Agree (· ∈ S) es fs)
    (h : Together (SameValue es fs) p o) (hcut : Cut m.sink n.sink o q) (hn : n.sink.Reliable) :
    AlikeOn S m n p q := by
  cases hcut with
  | spent =>
    cases h
    exact .spent
  | whole r a hfit =>
    cases h with
    | fault c h => exact .fault c h rfl
    | value h => exact .value h.1 (fun x hx => h.2.lookup_eq hbase hx) h.2.sink rfl
  | short a hfills _ => exact absurd hfills (hn.not_fills _)

/-- **What is not named is not seen.** -/
theorem Expr.eval_alikeOn (rounds : Nat) (e : Expr) {env₁ env₂ : Env} {m₁ m₂ : Machine}
    (h₁ : m₁.Sound env₁) (h₂ : m₂.Sound env₂) (hk₁ : m₁.sink.Reliable) (hk₂ : m₂.sink.Reliable)
    (hagree : ∀ x ∈ e.names, (m₁.arena.lookup env₁ x).map Binding.value =
      (m₂.arena.lookup env₂ x).map Binding.value) :
    AlikeOn e.names m₁ m₂ (e.eval rounds env₁ m₁) (e.eval rounds env₂ m₂) := by
  have hbase : Agree (· ∈ e.names) (m₁.arena.entries env₁) (m₂.arena.entries env₂) := by
    intro x hx
    rw [Arena.lookup_entries, Arena.lookup_entries, hagree x hx]
  -- the run in between is on the second arena, with the sink of the first machine
  have hstep : InStep (m₁.arena.entries env₁) (m₂.arena.entries env₂) env₁ m₁ env₂
      ⟨m₂.arena, m₁.sink⟩ := ⟨h₁, ⟨h₂.descends, h₂.holds⟩, rfl, [], rfl, rfl⟩
  have htogether := e.eval_together hbase rounds (fun _ hx => hx) hstep
  exact htogether.alikeOn hbase ((e.eval_blind rounds env₂).cut m₂.arena (hk₁.roomier hk₂)) hk₂

/-! ## Both -/

/-- **An evaluation is confined to the names of its expression:** it binds those that are assigned,
and sees no others. -/
theorem Expr.eval_confined (e : Expr) :
    (∀ (rounds : Nat) (env : Env) (m : Machine) (r : Evaluation) (m' : Machine), m.Sound env →
      e.eval rounds env m = some (.ok r, m') →
        (∃ news, m'.arena.chain r.env = news ++ m.arena.chain env ∧
          ∀ b ∈ news, e.Assigns b.name) ∧
        ∀ x, ¬ e.Assigns x → m'.arena.lookup r.env x = m.arena.lookup env x) ∧
    ∀ (rounds : Nat) (env₁ env₂ : Env) (m₁ m₂ : Machine), m₁.Sound env₁ → m₂.Sound env₂ →
      m₁.sink.Reliable → m₂.sink.Reliable →
      (∀ x ∈ e.names, (m₁.arena.lookup env₁ x).map Binding.value =
        (m₂.arena.lookup env₂ x).map Binding.value) →
      AlikeOn e.names m₁ m₂ (e.eval rounds env₁ m₁) (e.eval rounds env₂ m₂) := by
  refine ⟨fun rounds env m r m' hm h => ?_, fun rounds env₁ env₂ m₁ m₂ h₁ h₂ hk₁ hk₂ hagree =>
    e.eval_alikeOn rounds h₁ h₂ hk₁ hk₂ hagree⟩
  obtain ⟨news, hchain, hnames⟩ := ((e.eval_covered rounds env).ok h).front hm
  refine ⟨⟨news, hchain, hnames⟩, fun x hx => ?_⟩
  have hne : ∀ b ∈ news, b.name ≠ x := fun b hb hbx => hx (hbx ▸ hnames b hb)
  rw [Arena.lookup_eq_find?, Arena.lookup_eq_find?, hchain, find?_name_append hne]

theorem Expr.eval_confined_counting :
    let e := Expr.print (.assign "n" (.arithmetic .add (.var "n") (.literal (.integer 1))))
    let z : Binding := ⟨"z", .string "s", none⟩
    let a : Arena := ⟨#[⟨"n", .integer 1, none⟩]⟩
    let b : Arena := ⟨#[z, ⟨"n", .integer 1, some 0⟩, ⟨"y", .unit, some 1⟩]⟩
    let m₁ : Machine := ⟨a, .unlimited⟩
    let m₂ : Machine := ⟨b, Sink.unlimited.keep "0\n".toUTF8⟩
    let m₂' : Machine := ⟨(b.extend (some 2) "n" (.integer 2)).2,
      (Sink.unlimited.keep "0\n".toUTF8).keep "2\n".toUTF8⟩
    m₁.Sound (some 0) ∧ m₂.Sound (some 2) ∧ m₁.sink.Reliable ∧ m₂.sink.Reliable ∧
      (∀ x ∈ e.names, (a.lookup (some 0) x).map Binding.value =
        (b.lookup (some 2) x).map Binding.value) ∧
      e.eval 0 (some 2) m₂ = some (.ok ⟨.integer 2, some 3⟩, m₂') ∧ ¬ e.Assigns "z" ∧
      m₂'.arena.lookup (some 3) "z" = some z ∧
      AlikeOn e.names m₁ m₂ (e.eval 0 (some 0) m₁) (e.eval 0 (some 2) m₂) := by
  intro e z a b m₁ m₂ m₂'
  have ha : a.Offers [some 0, none] := .extend .empty (by simp) "n" (.integer 1)
  have hz : Arena.Offers ⟨#[z]⟩ [some 0, none] := .extend .empty (by simp) "z" (.string "s")
  have hn : Arena.Offers ⟨#[z, ⟨"n", .integer 1, some 0⟩]⟩ [some 1, some 0, none] :=
    .extend hz (by simp) "n" (.integer 1)
  have hb : b.Offers [some 2, some 1, some 0, none] := .extend hn (by simp) "y" .unit
  have h₁ : m₁.Sound (some 0) := ⟨ha.sound.1, ha.sound.2 _ (by simp)⟩
  have h₂ : m₂.Sound (some 2) := ⟨hb.sound.1, hb.sound.2 _ (by simp)⟩
  have hagree : ∀ x ∈ e.names, (a.lookup (some 0) x).map Binding.value =
      (b.lookup (some 2) x).map Binding.value := by
    intro x hx
    obtain rfl : x = "n" := by simpa [e, names] using hx
    rfl
  have he : e.eval 0 (some 2) m₂ = some (.ok ⟨.integer 2, some 3⟩, m₂') := by rfl
  have hnot : ¬ e.Assigns "z" := by simp [e, Assigns, parts]
  have hconfined := e.eval_confined
  refine ⟨h₁, h₂, ⟨rfl, rfl⟩, ⟨rfl, rfl⟩, hagree, he, hnot, ?_, ?_⟩
  · exact (hconfined.1 0 _ _ _ _ h₂ he).2 "z" hnot
  · exact hconfined.2 0 _ _ _ _ h₁ h₂ ⟨rfl, rfl⟩ ⟨rfl, rfl⟩ hagree

end ExprScript
