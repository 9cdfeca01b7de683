import ExprScript.Proofs.Evolution
import ExprScript.Run

/-!
# Sinks with little room

A program never sees how much room its sink has left. So a run on a sink with a limit writes what it
would write on a sink without one, byte for byte, until a text does not fit; there it stops with the
fault of the sink, and the sink is full.

* `Sink.keep`, `Sink.Fits`, `Sink.Fills`: what a sink takes in.
* `Sink.Roomier`: one sink takes in all that another does.
* `Cut`: how a run on a sink compares with the run on a roomier one.
* `Blind`, `Blind.bind`: actions that do not look at their sink.
* **`Expr.eval_blind`**: evaluation is one of them.
* **`run_limited`**: a run on a sink that keeps the first `n` bytes.
-/

namespace ExprScript

/-! ## What a sink takes in -/

namespace Sink

/-- The sink with the bytes `out` after those that it keeps already. -/
def keep (s : Sink) (out : ByteArray) : Sink := { s with kept := s.kept ++ out }

/-- There is room for `n` bytes. -/
def Fits (s : Sink) (n : Nat) : Prop := s.room n = n

instance (s : Sink) (n : Nat) : Decidable (s.Fits n) := inferInstanceAs (Decidable (_ = _))

/-- There is room for `n` bytes and for no more. -/
def Fills (s : Sink) (n : Nat) : Prop := ∀ i, s.Fits i ↔ i ≤ n

theorem keep_empty (s : Sink) : s.keep .empty = s := by
  rw [keep, ByteArray.append_empty]

theorem keep_keep (s : Sink) (out more : ByteArray) :
    (s.keep out).keep more = s.keep (out ++ more) := by
  simp only [keep, ByteArray.append_assoc]

theorem fits_iff (s : Sink) (n : Nat) :
    s.Fits n ↔ ∀ limit, s.limit = some limit → n ≤ limit - s.kept.size := by
  unfold Fits room
  cases s.limit with
  | none => simp
  | some limit =>
    simp only [Option.some.injEq, forall_eq']
    omega

theorem Fits.le {s : Sink} {i n : Nat} (h : s.Fits n) (hi : i ≤ n) : s.Fits i := by
  rw [fits_iff] at h ⊢
  intro limit hl
  exact Nat.le_trans hi (h limit hl)

theorem fits_zero (s : Sink) : s.Fits 0 := by
  rw [fits_iff]
  omega

theorem fits_keep {s : Sink} {out : ByteArray} (h : s.Fits out.size) (n : Nat) :
    (s.keep out).Fits n ↔ s.Fits (out.size + n) := by
  rw [fits_iff] at h ⊢
  rw [fits_iff]
  refine forall₂_congr fun limit hl => ?_
  have := h limit hl
  simp only [keep, ByteArray.size_append]
  omega

theorem le_room_iff (s : Sink) (i n : Nat) : i ≤ s.room n ↔ i ≤ n ∧ s.Fits i := by
  rw [fits_iff]
  unfold room
  cases s.limit with
  | none => simp
  | some limit =>
    simp only [Option.some.injEq, forall_eq']
    omega

/-- A text that does not fit fills the sink up. -/
theorem fills_room {s : Sink} {n : Nat} (h : ¬ s.Fits n) : s.Fills (s.room n) := by
  intro i
  rw [le_room_iff]
  refine ⟨fun hi => ⟨?_, hi⟩, And.right⟩
  by_cases hn : i ≤ n
  · exact hn
  · exact absurd (hi.le (Nat.le_of_not_le hn)) h

theorem Fills.keep {s : Sink} {out : ByteArray} {n : Nat} (h : s.Fits out.size)
    (hn : (s.keep out).Fills n) : s.Fills (out.size + n) := by
  intro i
  by_cases hi : out.size ≤ i
  · obtain ⟨d, rfl⟩ := Nat.exists_eq_add_of_le hi
    rw [← fits_keep h, hn]
    omega
  · exact ⟨fun _ => by omega, fun _ => h.le (by omega)⟩

theorem room_le (s : Sink) (n : Nat) : s.room n ≤ n := ((s.le_room_iff _ n).1 (Nat.le_refl _)).1

/-- What does not fit is cut off. -/
theorem write_eq (s : Sink) (text : String) :
    s.write text =
      (if s.Fits text.toUTF8.size then .ok () else .error s.message,
        s.keep (text.toUTF8.extract 0 (s.room text.toUTF8.size))) := by
  by_cases h : s.Fits text.toUTF8.size
  · rw [if_pos h, h, ByteArray.extract_zero_size]
    exact if_pos h
  · rw [if_neg h]
    exact if_neg h

/-- The sink `j` takes in all that `k` does, and both answer a flush alike. -/
structure Roomier (j k : Sink) : Prop where
  fits : ∀ {n}, k.Fits n → j.Fits n
  flush : j.flush.1 = k.flush.1

theorem Roomier.keep {j k : Sink} (h : j.Roomier k) {out : ByteArray} (hk : k.Fits out.size) :
    (j.keep out).Roomier (k.keep out) where
  fits := by
    intro n hn
    rw [fits_keep hk] at hn
    exact (fits_keep (h.fits hk) n).2 (h.fits hn)
  flush := h.flush

theorem roomier_keep (s : Sink) (out : ByteArray) : s.Roomier (s.keep out) where
  fits := by
    intro n hn
    rw [fits_iff] at hn ⊢
    intro limit hl
    have := hn limit hl
    simp only [keep, ByteArray.size_append] at this
    omega
  flush := rfl

theorem Roomier.room_le {j k : Sink} (h : j.Roomier k) (n : Nat) : k.room n ≤ j.room n := by
  rw [le_room_iff]
  exact ⟨k.room_le n, h.fits ((k.le_room_iff _ n).1 (Nat.le_refl _)).2⟩

end Sink

namespace Action

theorem writeLine_eq (text : String) (m : Machine) :
    writeLine text m =
      let bytes := (text ++ "\n").toUTF8
      some (if m.sink.Fits bytes.size then .ok () else .error (.outputFailed m.sink.message),
        ⟨m.arena, m.sink.keep (bytes.extract 0 (m.sink.room bytes.size))⟩) := by
  rw [writeLine_apply, Sink.write_eq]
  by_cases h : m.sink.Fits (text ++ "\n").toUTF8.size
  · simp only [if_pos h]
  · simp only [if_neg h]

theorem flush_eq (m : Machine) :
    flush m = some (m.sink.flush.1.mapError .outputFailed, m) := by
  rw [flush, onSink, Sink.flush]
  cases m.sink.flushFails <;> rfl

end Action

/-! ## Runs that are cut short -/

/-- Two runs of an action, on the sinks `j` and `k`, of which `j` has more room. -/
inductive Cut {α : Type} (j k : Sink) :
    Option (Except Cause α × Machine) → Option (Except Cause α × Machine) → Prop
  | spent : Cut j k none none
  /-- Both sinks take in all that is written. -/
  | whole (r : Except Cause α) (a : Arena) {out : ByteArray} (h : k.Fits out.size) :
      Cut j k (some (r, ⟨a, j.keep out⟩)) (some (r, ⟨a, k.keep out⟩))
  /-- The sink `k` is full before `j` is, or both at once. -/
  | short {p : Option (Except Cause α × Machine)} (a : Arena) {out : ByteArray}
      (h : k.Fills out.size)
      (hp : ∀ r m, p = some (r, m) → ∃ more, m.sink = j.keep (out ++ more) ∧
        (more.size = 0 → j.Fills out.size)) :
      Cut j k p (some (.error (.outputFailed k.message), ⟨a, k.keep out⟩))

/-- Nothing is written. -/
theorem Cut.silent {α : Type} (j k : Sink) (r : Except Cause α) (a : Arena) :
    Cut j k (some (r, ⟨a, j⟩)) (some (r, ⟨a, k⟩)) := by
  have h : Cut j k (some (r, ⟨a, j.keep .empty⟩)) (some (r, ⟨a, k.keep .empty⟩)) :=
    .whole r a k.fits_zero
  rwa [Sink.keep_empty, Sink.keep_empty] at h

theorem Cut.of_keep {α : Type} {j k : Sink} {out : ByteArray}
    {p q : Option (Except Cause α × Machine)} (h : Cut (j.keep out) (k.keep out) p q)
    (hjk : j.Roomier k) (hk : k.Fits out.size) : Cut j k p q := by
  cases h with
  | spent => exact .spent
  | whole r a h =>
    rw [Sink.keep_keep, Sink.keep_keep]
    rw [Sink.fits_keep hk, ← ByteArray.size_append] at h
    exact .whole r a h
  | short a h hp =>
    have h := h.keep hk
    rw [← ByteArray.size_append] at h
    rw [Sink.keep_keep]
    refine .short a h fun r m hr => ?_
    obtain ⟨more, hm, hfull⟩ := hp r m hr
    refine ⟨more, by rw [hm, Sink.keep_keep, ByteArray.append_assoc], fun he => ?_⟩
    rw [ByteArray.size_append]
    exact (hfull he).keep (hjk.fits hk)

/-- The action adds to its sink and does not look at it. -/
structure Blind {α : Type} (x : Action α) : Prop where
  adds : ∀ {m : Machine} {r : Except Cause α} {m' : Machine},
    x m = some (r, m') → ∃ out, m'.sink = m.sink.keep out
  cut : ∀ (a : Arena) {j k : Sink}, j.Roomier k → Cut j k (x ⟨a, j⟩) (x ⟨a, k⟩)

namespace Blind

variable {α β : Type}

/-- An action that reads and changes the arena only. -/
theorem of_arena {x : Action α} (f : Arena → Except Cause α × Arena)
    (h : ∀ m : Machine, x m = some ((f m.arena).1, ⟨(f m.arena).2, m.sink⟩)) : Blind x where
  adds := by
    intro m r m' hx
    rw [h] at hx
    cases hx
    exact ⟨.empty, m.sink.keep_empty.symm⟩
  cut := by
    intro a j k _
    rw [h, h]
    exact .silent j k _ _

theorem pure (a : α) : Blind (Pure.pure a : Action α) :=
  of_arena (fun arena => (.ok a, arena)) fun _ => rfl

theorem ofExcept (r : Except Cause α) : Blind (Attempt.ofExcept r) :=
  of_arena (fun arena => (r, arena)) fun _ => rfl

theorem spent : Blind (Attempt.spent : Action α) where
  adds := by
    intro m r m' h
    cases h
  cut := fun _ _ _ _ => .spent

theorem bind {x : Action α} {f : α → Action β} (hx : Blind x) (hf : ∀ a, Blind (f a)) :
    Blind (x >>= f) where
  adds := by
    intro m p m' h
    rcases Attempt.bind_eq_some_iff.1 h with ⟨e, m₁, h₁, hp⟩ | ⟨a, m₁, h₁, h₂⟩
    · cases hp
      exact hx.adds h₁
    · obtain ⟨out, hout⟩ := hx.adds h₁
      obtain ⟨more, hmore⟩ := (hf a).adds h₂
      exact ⟨out ++ more, by rw [hmore, hout, Sink.keep_keep]⟩
  cut := by
    intro a j k hjk
    have h := hx.cut a hjk
    rw [Attempt.bind_apply, Attempt.bind_apply]
    generalize x ⟨a, j⟩ = p at h ⊢
    generalize x ⟨a, k⟩ = q at h ⊢
    cases h with
    | spent => exact .spent
    | whole r a h =>
      cases r with
      | error c => exact .whole _ a h
      | ok v => exact ((hf v).cut a (hjk.keep h)).of_keep hjk h
    | short a h hp =>
      refine .short a h fun r m hr => ?_
      -- on the roomier sink the action may go on, and then only adds to what it wrote
      split at hr
      · next v t =>
        obtain ⟨more, ht, hfull⟩ := hp _ _ rfl
        obtain ⟨rest, hm⟩ := (hf v).adds hr
        refine ⟨more ++ rest, by rw [hm, ht, Sink.keep_keep, ByteArray.append_assoc], fun he => ?_⟩
        rw [ByteArray.size_append] at he
        exact hfull (Nat.eq_zero_of_add_eq_zero_right he)
      · cases hr
        exact hp _ _ rfl
      · cases hr

/-- What follows may depend on the arena as it is. -/
theorem state {f : Machine → Action α} (g : Arena → Action α) (hg : ∀ a, Blind (g a))
    (h : ∀ m, f m = g m.arena) : Blind (Attempt.state >>= f) where
  adds := by
    intro m r m' hx
    exact (hg m.arena).adds ((congrFun (h m) m).symm.trans hx)
  cut := by
    intro a j k hjk
    rw [Attempt.bind_apply, Attempt.bind_apply, Attempt.state_apply, Attempt.state_apply]
    dsimp only
    rw [h, h]
    exact (hg a).cut a hjk

theorem read (env : Env) (x : String) : Blind (Action.read env x) := by
  refine of_arena (fun a => ((a.lookup env x).elim (.error (.undeclared x))
    fun b => .ok ⟨b.value, env⟩, a)) fun m => ?_
  rw [Action.read_apply]
  cases m.arena.lookup env x <;> rfl

theorem extend (x : String) (r : Evaluation) : Blind (Action.extend x r) :=
  of_arena (fun a => (.ok ⟨r.value, (a.extend r.env x r.value).1⟩, (a.extend r.env x r.value).2))
    fun _ => rfl

theorem assign (x : String) (r : Evaluation) : Blind (Action.assign x r) := by
  refine state (fun a => (a.lookup r.env x).elim (Action.extend x r) fun b =>
      if b.value.tag = r.value.tag then Action.extend x r
      else Attempt.ofExcept (.error (.assignmentMismatch x b.value.tag r.value.tag)))
    (fun a => ?_) fun m => ?_
  · cases a.lookup r.env x with
    | none => exact extend x r
    | some b =>
      dsimp only [Option.elim_some]
      split
      · exact extend x r
      · exact ofExcept _
  · cases m.arena.lookup r.env x <;> rfl

theorem writeLine (text : String) : Blind (Action.writeLine text) where
  adds := by
    intro m r m' h
    rw [Action.writeLine_eq] at h
    cases h
    exact ⟨_, rfl⟩
  cut := by
    intro a j k hjk
    rw [Action.writeLine_eq, Action.writeLine_eq]
    dsimp only
    generalize (text ++ "\n").toUTF8 = bytes
    by_cases hk : k.Fits bytes.size
    · have hj := hjk.fits hk
      rw [if_pos hk, if_pos hj, hk, hj, ByteArray.extract_zero_size]
      exact .whole _ a hk
    · rw [if_neg hk]
      have hfills : k.Fills (bytes.extract 0 (k.room bytes.size)).size := by
        rw [ByteArray.size_extract, Nat.min_eq_left (k.room_le _)]
        exact Sink.fills_room hk
      have hroom := hjk.room_le bytes.size
      refine .short a hfills fun r m hr => ?_
      cases hr
      refine ⟨bytes.extract (k.room bytes.size) (j.room bytes.size), ?_, fun he => ?_⟩
      · rw [ByteArray.extract_append_extract, Nat.zero_min, Nat.max_eq_right hroom]
      · rw [ByteArray.size_extract, Nat.min_eq_left (j.room_le _)] at he
        have heq : k.room bytes.size = j.room bytes.size := by omega
        have hj : ¬ j.Fits bytes.size := fun hj => hk (heq.trans hj)
        rw [ByteArray.size_extract, Nat.min_eq_left (k.room_le _), heq]
        exact Sink.fills_room hj

theorem flush : Blind Action.flush where
  adds := by
    intro m r m' h
    rw [Action.flush_eq] at h
    cases h
    exact ⟨.empty, m.sink.keep_empty.symm⟩
  cut := by
    intro a j k hjk
    rw [Action.flush_eq, Action.flush_eq, hjk.flush]
    exact .silent j k _ a

theorem repeatWhile {condition body : Env → Action Evaluation}
    (hc : ∀ env, Blind (condition env)) (hb : ∀ env, Blind (body env)) (n : Nat)
    (last : Evaluation) : Blind (repeatWhile condition body n last) := by
  induction n generalizing last with
  | zero => exact spent
  | succ n ih =>
    refine (hc last.env).bind fun checked => (ofExcept _).bind fun b => ?_
    cases b
    · exact pure last
    · exact (hb checked.env).bind ih

end Blind

/-! ## Evaluation and runs -/

namespace Expr

theorem operands_blind {rounds : Nat} {l r : Expr} {env : Env} (hl : Blind (l.eval rounds env))
    (hr : ∀ env, Blind (r.eval rounds env)) (f : Value → Value → Except Cause Value) :
    Blind (do
      let left ← l.eval rounds env
      let right ← r.eval rounds left.env
      let value ← Attempt.ofExcept (f left.value right.value)
      return (⟨value, right.env⟩ : Evaluation)) :=
  hl.bind fun left => (hr left.env).bind fun _ => (Blind.ofExcept _).bind fun _ => Blind.pure _

mutual

/-- **Evaluation does not look at its sink.** -/
theorem eval_blind (rounds : Nat) (e : Expr) (env : Env) : Blind (e.eval rounds env) := by
  cases e with
  | literal v => exact Blind.pure _
  | var x => exact Blind.read env x
  | assign x e => exact (eval_blind rounds e env).bind fun r => Blind.assign x r
  | arithmetic op l r | logical op l r | comparison op l r =>
    exact operands_blind (eval_blind rounds l env) (eval_blind rounds r) op.apply
  | not e =>
    exact (eval_blind rounds e env).bind fun r => (Blind.ofExcept _).bind fun _ => Blind.pure _
  | branch c y n =>
    refine (eval_blind rounds c env).bind fun checked => (Blind.ofExcept _).bind fun b => ?_
    cases b
    · exact eval_blind rounds n checked.env
    · exact eval_blind rounds y checked.env
  | loop c b =>
    exact Blind.repeatWhile (eval_blind rounds c) (eval_blind rounds b) rounds (.unit env)
  | sequence es | program es => exact evalAll_blind rounds es (.unit env)
  | print e =>
    exact (eval_blind rounds e env).bind fun r => (Blind.writeLine _).bind fun _ => Blind.pure _

theorem evalAll_blind (rounds : Nat) (es : List Expr) (last : Evaluation) :
    Blind (evalAll rounds es last) := by
  cases es with
  | nil => exact Blind.pure _
  | cons e es => exact (eval_blind rounds e last.env).bind fun r => evalAll_blind rounds es r

end

end Expr

theorem dump_blind (program : Expr) (f : Finish) : Blind (dump program f) :=
  (Blind.writeLine _).bind fun _ => (Blind.writeLine _).bind fun _ =>
    (Blind.writeLine _).bind fun _ => Blind.flush

theorem runAction_blind (rounds : Nat) (program : Expr) (debug : Bool) :
    Blind (runAction rounds program debug) := by
  refine (program.eval_blind rounds none).bind fun r => ?_
  cases debug with
  | false =>
    exact Blind.state (fun a => pure (Finish.mk r.value r.env a)) (fun _ => Blind.pure _)
      fun _ => rfl
  | true =>
    exact Blind.state
      (fun a => dump program ⟨r.value, r.env, a⟩ >>= fun _ => pure (Finish.mk r.value r.env a))
      (fun _ => (dump_blind program _).bind fun _ => Blind.pure _) fun _ => rfl

/-- A sink that keeps the first `n` bytes and refuses all others. -/
def Sink.limited (n : Nat) (message : String) : Sink := ⟨.empty, some n, false, message⟩

theorem Sink.fits_limited (n : Nat) (message : String) (i : Nat) :
    (Sink.limited n message).Fits i ↔ i ≤ n := by
  simp [fits_iff, limited]

theorem Sink.fits_unlimited (i : Nat) : Sink.unlimited.Fits i := rfl

theorem Sink.roomier_limited (n : Nat) (message : String) :
    Sink.unlimited.Roomier (.limited n message) :=
  ⟨fun _ => fits_unlimited _, rfl⟩

/-- How a run ended, from how its action did. -/
theorem run_eq_some_iff {rounds : Nat} {program : Expr} {debug : Bool} {sink s : Sink}
    {r : Except Fault Finish} :
    run rounds program debug sink = some (r, s) ↔
      ∃ q m, runAction rounds program debug ⟨.empty, sink⟩ = some (q, m) ∧
        r = q.mapError .unlocated ∧ s = m.sink := by
  rw [run, Option.map_eq_some_iff]
  constructor
  · rintro ⟨⟨_ | _, m⟩, hq, h⟩ <;> cases h <;> exact ⟨_, _, hq, rfl, rfl⟩
  · rintro ⟨_ | _, m, hq, rfl, rfl⟩ <;> exact ⟨_, hq, rfl⟩

/-- **A run on a sink that keeps the first `n` bytes** leaves these, and fails if there are more. -/
theorem run_limited {rounds : Nat} {program : Expr} {debug : Bool} {r : Except Fault Finish}
    {s : Sink} (h : run rounds program debug .unlimited = some (r, s)) (n : Nat)
    (message : String) :
    run rounds program debug (.limited n message) =
      if s.kept.size ≤ n then some (r, { Sink.limited n message with kept := s.kept })
      else some (.error (.unlocated (.outputFailed message)),
        { Sink.limited n message with kept := s.kept.extract 0 n }) := by
  obtain ⟨q, m, hq, rfl, rfl⟩ := run_eq_some_iff.1 h
  have hcut := (runAction_blind rounds program debug).cut .empty (Sink.roomier_limited n message)
  rw [hq] at hcut
  generalize hp : runAction rounds program debug ⟨.empty, .limited n message⟩ = p at hcut
  cases hcut with
  | @whole _ a out hfit =>
    have hsize : out.size ≤ n := (Sink.fits_limited n message _).1 hfit
    rw [if_pos (by simpa [Sink.keep, Sink.unlimited] using hsize)]
    exact run_eq_some_iff.2 ⟨q, _, hp, rfl, by simp [Sink.keep, Sink.unlimited, Sink.limited]⟩
  | @short _ a out hfills hmore =>
    obtain ⟨more, hm, hfull⟩ := hmore q m rfl
    have hn : out.size = n := by
      have h₁ := (hfills out.size).2 (Nat.le_refl _)
      have h₂ := (hfills n).1 ((Sink.fits_limited n message n).2 (Nat.le_refl _))
      rw [Sink.fits_limited] at h₁
      omega
    have hne : more.size ≠ 0 := by
      intro he
      have := (hfull he (out.size + 1)).1 (Sink.fits_unlimited _)
      omega
    have hkept : m.sink.kept = out ++ more := by
      rw [hm]
      simp [Sink.keep, Sink.unlimited]
    have hlong : ¬ m.sink.kept.size ≤ n := by
      rw [hkept, ByteArray.size_append]
      omega
    rw [if_neg hlong, hkept, ByteArray.extract_append_eq_left hn.symm]
    exact run_eq_some_iff.2 ⟨_, _, hp, rfl, by simp [Sink.keep, Sink.limited]⟩

/-- Room for a line, and for a dump up to half of a name. -/
theorem run_limited_nineteen :
    let program := Expr.assign "é" (.print (.literal (.integer 1)))
    let finish : Finish := ⟨.integer 1, some 0, ⟨#[⟨"é", .integer 1, none⟩]⟩⟩
    let out := "1\nprogram: Assign(é, Print(Integer(1)))\n".toUTF8 ++
      "final_value: (1, Integer)\nfinal_state: é: (1, Integer)\n".toUTF8
    run 0 program true .unlimited = some (.ok finish, ⟨out, none, false, ""⟩) ∧
      out.extract 0 19 = "1\nprogram: Assign(".toUTF8.push 0xc3 ∧
      run 0 program true (.limited 19 "full") =
        some (.error (.unlocated (.outputFailed "full")),
          ⟨out.extract 0 19, some 19, false, "full"⟩) := by
  intro program finish out
  have h : run 0 program true .unlimited = some (.ok finish, ⟨out, none, false, ""⟩) := by rfl
  have hlimited := run_limited h 19 "full"
  rw [if_neg (by decide +kernel)] at hlimited
  exact ⟨h, by decide +kernel, hlimited⟩

end ExprScript
