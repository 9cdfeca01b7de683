import ExprScript.Proofs.Agreement
import ExprScript.Proofs.Capacity
import ExprScript.Proofs.TagStability

/-!
# What an evaluation leaves to later ones

An evaluation adds records to the arena and bytes to the sink, also when it fails, and takes nothing
back. Environments from before it are as they were, and nothing evaluated in them can tell that it
took place: the records it left stand between new ones and old ones, but in no environment from
before. Only the room that it used up in a sink with a limit is gone.

* `SameEnd`: two evaluations end alike.
* `Refused`: one of them is refused by its sink, on the way that the other one takes.
* **`Expr.eval_persists`**: environments and evaluations after an evaluation, and without it.
* `Expr.not_sameEnd_of_full`: room in the sink can make a difference.
-/

namespace ExprScript

/-- Two evaluations, begun on the machines `m` and `n`, end alike. Both give the same value, in
environments with the same entries, or the same fault, and both have written the same bytes. -/
inductive SameEnd (m n : Machine) :
    Option (Except Cause Evaluation × Machine) → Option (Except Cause Evaluation × Machine) → Prop
  | spent : SameEnd m n none none
  | value {r s : Evaluation} {m' n' : Machine} {out : ByteArray} (hv : r.value = s.value)
      (he : m'.arena.entries r.env = n'.arena.entries s.env) (hm : m'.sink = m.sink.keep out)
      (hn : n'.sink = n.sink.keep out) : SameEnd m n (some (.ok r, m')) (some (.ok s, n'))
  | fault (c : Cause) {m' n' : Machine} {out : ByteArray} (hm : m'.sink = m.sink.keep out)
      (hn : n'.sink = n.sink.keep out) : SameEnd m n (some (.error c, m')) (some (.error c, n'))

/-- The first of two evaluations, begun on the machines `m` and `n`, fills its sink up and is
refused there. What it has written so far is what the second one writes first. -/
def Refused (m n : Machine) (p q : Option (Except Cause Evaluation × Machine)) : Prop :=
  ∃ m' out, p = some (.error (.outputFailed m.sink.message), m') ∧ m'.sink = m.sink.keep out ∧
    m.sink.Fills out.size ∧ ∀ r n', q = some (r, n') → ∃ more, n'.sink = n.sink.keep (out ++ more)

/-! ## Other records in the arena -/

theorem Expr.eval_together_of_entries (rounds : Nat) (e : Expr) {a b : Arena} {env : Env} {s : Sink}
    (ha : (Machine.mk a s).Sound env) (hb : (Machine.mk b s).Sound env)
    (h : a.entries env = b.entries env) :
    Together (SameValue (a.entries env) (b.entries env)) (e.eval rounds env ⟨a, s⟩)
      (e.eval rounds env ⟨b, s⟩) := by
  have hall : Agree (fun _ => True) (a.entries env) (b.entries env) := fun x _ => by rw [h]
  exact e.eval_together hall rounds (fun _ _ => trivial) ⟨ha, hb, rfl, [], rfl, rfl⟩

theorem Together.sameEnd {es : List (String × Value)} {m n : Machine}
    {p q : Option (Except Cause Evaluation × Machine)} (h : Together (SameValue es es) p q)
    (hsink : m.sink = n.sink) (hp : ∀ r m', p = some (r, m') → ∃ out, m'.sink = m.sink.keep out) :
    SameEnd m n p q := by
  cases h with
  | spent => exact .spent
  | fault c h =>
    obtain ⟨out, hout⟩ := hp _ _ rfl
    exact .fault c hout (by rw [← h, hout, hsink])
  | value h =>
    obtain ⟨out, hout⟩ := hp _ _ rfl
    obtain ⟨news, h₁, h₂⟩ := h.2.entries
    exact .value h.1 (h₁.trans h₂.symm) hout (by rw [← h.2.sink, hout, hsink])

theorem Together.sameEnd_or_refused {es : List (String × Value)} {m n : Machine}
    {p q o : Option (Except Cause Evaluation × Machine)} (h : Together (SameValue es es) p q)
    (hcut : Cut n.sink m.sink o q) : SameEnd m n p o ∨ Refused m n p o := by
  cases hcut with
  | spent =>
    cases h
    exact .inl .spent
  | whole r a hfit =>
    cases h with
    | fault c h => exact .inl (.fault c h rfl)
    | value h =>
      obtain ⟨news, h₁, h₂⟩ := h.2.entries
      exact .inl (.value h.1 (h₁.trans h₂.symm) h.2.sink rfl)
  | short a hfills hmore =>
    cases h with
    | fault _ h =>
      refine .inr ⟨_, _, rfl, h, hfills, fun r n' hr => ?_⟩
      obtain ⟨more, hn', -⟩ := hmore r n' hr
      exact ⟨more, hn'⟩

/-! ## After an evaluation, and without it -/

/-- **Evaluations leave no trace on earlier environments.** Later ones from there end as they would
have, unless the first has used up room in the sink. -/
theorem Expr.eval_persists {rounds : Nat} {e : Expr} {env : Env} {m m' : Machine}
    {r : Except Cause Evaluation} (hm : m.arena.Descends) (henv : m.arena.Holds env)
    (h : e.eval rounds env m = some (r, m')) :
    m.arena.GrowsTo m'.arena ∧ (∃ out, m'.sink = m.sink.keep out) ∧
      ∀ old, m.arena.Holds old →
        m'.arena.chain old = m.arena.chain old ∧
        (∀ x, m'.arena.lookup old x = m.arena.lookup old x) ∧
        m'.arena.depth old = m.arena.depth old ∧
        m'.arena.render old = m.arena.render old ∧
        ∀ (f : Expr) (budget : Nat),
          SameEnd m' m (f.eval budget old m') (f.eval budget old m) ∨
            m'.sink ≠ m.sink ∧ Refused m' m (f.eval budget old m') (f.eval budget old m) := by
  have hev : Evolves env m env m' := by
    cases r with
    | ok r => exact ((e.eval_tracks rounds env).ok h).back
    | error c => exact (e.eval_tracks rounds env).error h
  have hgrows := hev.growsTo
  obtain ⟨out, hout⟩ := (e.eval_blind rounds env).adds h
  refine ⟨hgrows, ⟨out, hout⟩, fun old hold => ?_⟩
  have hchain := hgrows.chain_eq hm hold
  refine ⟨hchain, hgrows.lookup_eq hm hold, by rw [Arena.depth, Arena.depth, hchain],
    by rw [Arena.render, Arena.render, hchain], fun f budget => ?_⟩
  have hentries : m'.arena.entries old = m.arena.entries old := by
    rw [Arena.entries, Arena.entries, hchain]
  -- the run in between: the records of the first evaluation are gone, what it wrote is not
  have htogether : Together (SameValue (m.arena.entries old) (m.arena.entries old))
      (f.eval budget old m') (f.eval budget old ⟨m.arena, m'.sink⟩) := by
    have hm' : m'.Sound old := ⟨(hev.sound ⟨hm, henv⟩).descends, hgrows.holds hold⟩
    have h := f.eval_together_of_entries budget hm' ⟨hm, hold⟩ hentries
    rwa [hentries] at h
  by_cases hsink : m'.sink = m.sink
  · rw [hsink] at htogether
    exact .inl (htogether.sameEnd hsink fun _ _ hr => (f.eval_blind budget old).adds hr)
  · have hcut := (f.eval_blind budget old).cut m.arena (hout ▸ m.sink.roomier_keep out)
    exact (htogether.sameEnd_or_refused hcut).imp_right fun h => ⟨hsink, h⟩

theorem Expr.eval_persists_counting :
    let m := Session.counting.machine
    let e := Expr.sequence [.assign "n" (.literal (.integer 2)),
      .print (.assign "k" (.literal (.integer 5))), .var "x"]
    let m' : Machine := ⟨⟨#[⟨"n", .integer 1, none⟩, ⟨"n", .integer 2, some 0⟩,
      ⟨"k", .integer 5, some 1⟩]⟩, Sink.unlimited.keep "5\n".toUTF8⟩
    let f := Expr.assign "n" (.arithmetic .add (.var "n") (.literal (.integer 9)))
    m.arena.Descends ∧ m.arena.Holds (some 0) ∧
      e.eval 0 (some 0) m = some (.error (.undeclared "x"), m') ∧
      SameEnd m' m (f.eval 0 (some 0) m') (f.eval 0 (some 0) m) := by
  intro m e m' f
  have hsound := Session.reachable_counting.sound (some 0) (by simp [Session.counting])
  have he : e.eval 0 (some 0) m = some (.error (.undeclared "x"), m') := by rfl
  refine ⟨hsound.descends, hsound.holds, he, ?_⟩
  obtain ⟨-, -, h⟩ := Expr.eval_persists hsound.descends hsound.holds he
  obtain ⟨-, -, -, -, h⟩ := h (some 0) hsound.holds
  refine (h f 0).resolve_right ?_
  rintro ⟨-, n', out, -, -, hfills, -⟩
  have := (hfills (out.size + 1)).1 rfl
  omega

/-- With two bytes of room, one line that is printed leaves none for the next. -/
theorem Expr.not_sameEnd_of_full :
    let m := Machine.fresh (.limited 2 "full")
    let e := Expr.sequence [.print (.literal (.integer 1)), .var "x"]
    let m' : Machine := ⟨.empty, (Sink.limited 2 "full").keep "1\n".toUTF8⟩
    let f := Expr.print (.literal (.integer 2))
    m.arena.Descends ∧ m.arena.Holds none ∧
      e.eval 0 none m = some (.error (.undeclared "x"), m') ∧
      ¬ SameEnd m' m (f.eval 0 none m') (f.eval 0 none m) := by
  intro m e m' f
  refine ⟨Arena.descends_empty, Arena.holds_none _, by rfl, ?_⟩
  have hafter : f.eval 0 none m' = some (.error (.outputFailed "full"), m') := by rfl
  have hbefore : f.eval 0 none m =
      some (.ok ⟨.integer 2, none⟩, ⟨.empty, (Sink.limited 2 "full").keep "2\n".toUTF8⟩) := by rfl
  rw [hafter, hbefore]
  rintro ⟨⟩

end ExprScript
