import ExprScript.Proofs.Evolution
import ExprScript.Session

/-!
# Names keep their tags

An assignment compares tags with the innermost binding in sight only. All the same, over any session
all bindings of a name in one environment have one tag, whichever environments the evaluations
started from and whichever of them failed.

* `Session.Reachable`: the sessions that evaluations lead to.
* `Session.Reachable.forall_envs`: what evolution preserves holds of every environment handed out.
* `TagStable`: the bindings of a name have one tag.
* **`Session.Reachable.tags_stable`**: environments are tag stable, and an evaluation that succeeds
  keeps the tag of every name in sight.
-/

namespace ExprScript

/-! ## Sessions -/

namespace Session

/-- The session comes about by evaluations, each from an environment handed out before. -/
inductive Reachable : Session → Prop
  | start (sink : Sink) : Reachable (.start sink)
  | submit {s s' : Session} {r : Except Fault Value} (hs : Reachable s) (env : Env)
      (he : env ∈ s.envs) (rounds : Nat) (program : Expr)
      (h : s.submit rounds env program = some (r, s')) : Reachable s'

theorem submit_evolves {s s' : Session} {r : Except Fault Value} {env : Env} {rounds : Nat}
    {program : Expr} (h : s.submit rounds env program = some (r, s')) :
    ∃ env', Evolves env s.machine env' s'.machine ∧ s'.envs = s.envs.push env' := by
  obtain ⟨⟨q, m⟩, hq, h⟩ := Option.map_eq_some_iff.1 h
  have ht := Expr.eval_tracks rounds program env
  cases q with
  | ok r =>
    cases h
    exact ⟨r.env, ht.ok hq, rfl⟩
  | error c =>
    cases h
    exact ⟨env, ht.error hq, rfl⟩

/-- A property that evaluation preserves holds of all environments handed out. -/
theorem Reachable.forall_envs {P : Machine → Env → Prop} (hfresh : ∀ sink, P (.fresh sink) none)
    (hnext : ∀ {m m' env env'}, P m env → Evolves env m env' m' → P m' env')
    (hkeep : ∀ {m m' env env' other}, P m env → P m other → Evolves env m env' m' → P m' other)
    {s : Session} (hs : s.Reachable) : ∀ env ∈ s.envs, P s.machine env := by
  induction hs with
  | start sink =>
    intro env he
    obtain rfl : env = none := by simpa [Session.start] using he
    exact hfresh sink
  | submit _ _ he _ _ h ih =>
    intro other ho
    obtain ⟨env', hev, hpush⟩ := submit_evolves h
    rw [hpush, Array.mem_push] at ho
    rcases ho with ho | rfl
    · exact hkeep (ih _ he) (ih _ ho) hev
    · exact hnext (ih _ he) hev

theorem Reachable.sound {s : Session} (hs : s.Reachable) : ∀ env ∈ s.envs, s.machine.Sound env :=
  hs.forall_envs (fun _ => ⟨Arena.descends_empty, Arena.holds_none _⟩)
    (fun h k => k.sound h)
    (fun h ho k => ⟨(k.sound h).descends, k.growsTo.holds ho.holds⟩)

end Session

/-! ## One tag for each name -/

/-- Bindings of one name have one tag. -/
def TagStable (bs : List Binding) : Prop :=
  ∀ b ∈ bs, ∀ c ∈ bs, b.name = c.name → b.value.tag = c.value.tag

theorem exists_find?_name {bs : List Binding} {b : Binding} {x : String} (hb : b ∈ bs)
    (hx : b.name = x) : ∃ c, bs.find? (·.name = x) = some c := by
  rw [← Option.isSome_iff_exists, List.find?_isSome]
  exact ⟨b, hb, by simpa using hx⟩

theorem TagStable.cons {bs : List Binding} (h : TagStable bs) (b : Binding)
    (hb : ∀ c, bs.find? (·.name = b.name) = some c → c.value.tag = b.value.tag) :
    TagStable (b :: bs) := by
  -- the innermost binding of the name speaks for the ones that it shadows
  have key : ∀ c ∈ bs, c.name = b.name → c.value.tag = b.value.tag := by
    intro c hc hn
    obtain ⟨d, hd⟩ := exists_find?_name hc hn
    have hdn : d.name = b.name := by simpa using List.find?_some hd
    rw [h c hc d (List.mem_of_find?_eq_some hd) (hn.trans hdn.symm), hb d hd]
  intro c hc d hd hn
  rcases List.mem_cons.1 hc with hc | hc <;> rcases List.mem_cons.1 hd with hd | hd
  · rw [hc, hd]
  · rw [hc] at hn ⊢
    exact (key d hd hn.symm).symm
  · rw [hd] at hn ⊢
    exact key c hc hn
  · exact h c hc d hd hn

theorem TagStable.tag_eq {bs cs : List Binding} (h : TagStable cs) (hs : bs <:+ cs) {x : String}
    {b c : Binding} (hb : bs.find? (·.name = x) = some b) (hc : cs.find? (·.name = x) = some c) :
    c.value.tag = b.value.tag := by
  have hbn : b.name = x := by simpa using List.find?_some hb
  have hcn : c.name = x := by simpa using List.find?_some hc
  exact h c (List.mem_of_find?_eq_some hc) b (hs.mem (List.mem_of_find?_eq_some hb))
    (hcn.trans hbn.symm)

theorem Evolves.tagStable {env env' : Env} {m m' : Machine} (h : Evolves env m env' m')
    (hm : m.Sound env) (ht : TagStable (m.arena.chain env)) :
    TagStable (m'.arena.chain env') := by
  induction h with
  | refl => exact ht
  | bind h x v hx ih =>
    have hs := h.sound hm
    rw [Machine.extend_arena, Arena.chain_extend x v hs.descends hs.holds]
    refine (ih hm ht).cons _ fun c hc => hx c ?_
    rw [Arena.lookup_eq_find?]
    exact hc
  | write _ _ ih => exact ih hm ht
  | drop h k ih _ => exact k.chain_eq (h.sound hm) ▸ ih hm ht

theorem Session.Reachable.tagStable {s : Session} (hs : s.Reachable) :
    ∀ env ∈ s.envs, TagStable (s.machine.arena.chain env) := by
  have h : ∀ env ∈ s.envs, s.machine.Sound env ∧ TagStable (s.machine.arena.chain env) := by
    refine hs.forall_envs (P := fun m env => m.Sound env ∧ TagStable (m.arena.chain env))
      (fun sink => ⟨⟨Arena.descends_empty, Arena.holds_none _⟩, ?_⟩)
      (fun h k => ⟨k.sound h.1, k.tagStable h.1 h.2⟩) (fun h ho k => ⟨⟨?_, ?_⟩, ?_⟩)
    · simp [TagStable]
    · exact (k.sound h.1).descends
    · exact k.growsTo.holds ho.1.holds
    · exact k.growsTo.chain_eq ho.1.descends ho.1.holds ▸ ho.2
  exact fun env he => (h env he).2

/-- **Names keep their tags.** All bindings of a name have one tag, and an evaluation that succeeds
keeps them. -/
theorem Session.Reachable.tags_stable {s : Session} (hs : s.Reachable) :
    (∀ env ∈ s.envs, TagStable (s.machine.arena.chain env)) ∧
      ∀ env ∈ s.envs, ∀ (rounds : Nat) (e : Expr) (r : Evaluation) (m : Machine),
        e.eval rounds env s.machine = some (.ok r, m) →
          TagStable (m.arena.chain r.env) ∧
          m.arena.chain env = s.machine.arena.chain env ∧
          m.arena.chain env <:+ m.arena.chain r.env ∧
          ∀ x b, s.machine.arena.lookup env x = some b →
            ∃ c, m.arena.lookup r.env x = some c ∧ c.value.tag = b.value.tag := by
  refine ⟨hs.tagStable, fun env he rounds e r m h => ?_⟩
  have hsound := hs.sound env he
  have hev := (Expr.eval_tracks rounds e env).ok h
  have hstable := hev.tagStable hsound (hs.tagStable env he)
  have hchain := hev.chain_eq hsound
  have hsuffix := hev.suffix hsound
  refine ⟨hstable, hchain, hchain ▸ hsuffix, fun x b hb => ?_⟩
  rw [Arena.lookup_eq_find?] at hb ⊢
  have hmem := hsuffix.mem (List.mem_of_find?_eq_some hb)
  obtain ⟨c, hc⟩ := exists_find?_name hmem (by simpa using List.find?_some hb)
  exact ⟨c, hc, hstable.tag_eq hsuffix hb hc⟩

/-- A session in which `n` was set to one, after an attempt to read it that failed. -/
def Session.counting : Session :=
  ⟨⟨⟨#[⟨"n", .integer 1, none⟩]⟩, .unlimited⟩, #[none, none, some 0]⟩

theorem Session.reachable_counting : Session.counting.Reachable := by
  have h₁ : Reachable ⟨.fresh .unlimited, #[none, none]⟩ :=
    .submit (r := .error (.unlocated (.undeclared "n"))) (.start .unlimited) none
      (by simp [Session.start]) 0 (.var "n") (by rfl)
  exact .submit (r := .ok (.integer 1)) h₁ none (by simp) 0 (.assign "n" (.literal (.integer 1)))
    (by rfl)

theorem Session.tags_stable_counting :
    let count := Expr.loop (.comparison .less (.var "n") (.literal (.integer 3)))
      (.assign "n" (.arithmetic .add (.var "n") (.literal (.integer 1))))
    let counted : Arena :=
      ⟨#[⟨"n", .integer 1, none⟩, ⟨"n", .integer 2, some 0⟩, ⟨"n", .integer 3, some 1⟩]⟩
    Session.counting.Reachable ∧
      count.eval 3 (some 0) Session.counting.machine =
        some (.ok ⟨.integer 3, some 2⟩, ⟨counted, .unlimited⟩) ∧
      TagStable (counted.chain (some 2)) ∧ counted.chain (some 0) <:+ counted.chain (some 2) := by
  intro count counted
  have hcount : count.eval 3 (some 0) Session.counting.machine =
      some (.ok ⟨.integer 3, some 2⟩, ⟨counted, .unlimited⟩) := by rfl
  have h := Session.reachable_counting.tags_stable.2 (some 0) (by simp [Session.counting]) 3 count
    _ _ hcount
  exact ⟨Session.reachable_counting, hcount, h.1, h.2.2.1⟩

end ExprScript
