import ExprScript.Proofs.Capacity
import ExprScript.Proofs.Likeness
import ExprScript.Proofs.Tiling
import ExprScript.Session
import ExprScript.Text.Line

/-!
# Where faults come from

A source is read before anything of it is run. A fault of reading has a place, that of a token or of
the character that starts none, and leaves the sink as it was. A fault of running has no place, and
is never of the category of reading; if it is one of output, then the sink did fail.

* `parse_fault`, `tokenize_fault`: faults of reading; `Fault.OfReading`: what is known of them.
* `Sink.Fails`: a sink refuses a text or a flush.
* `Honest`, `Honest.bind`: actions whose faults are their own, or of their sink.
* `Expr.eval_honest`, `runAction_honest`: evaluations and runs are such actions.
* **`runSource_faults`**: the faults of a source.
-/

namespace ExprScript

/-! ## Reading -/

theorem Parse.EndsAlike.located {R : Token → Token → Prop} {α : Type} {f : Fault} {c : Cursor}
    {p : Option (Except Fault α × Cursor)} (h : EndsAlike R (some (.error f, c)) p) :
    f.cause.category = .malformed ∧ ∃ t t', R t t' ∧ f.position = some t.span.start := by
  cases h with
  | error _ ht hcause => exact ⟨hcause, _, _, ht, rfl⟩

/-- A fault of reading is at one of the tokens. -/
theorem parse_fault {us : List Token} {e : Token} (he : e.kind = .eof) {file : String} {f : Fault}
    (h : parse (us ++ [e]) file = some (.error f)) :
    f.cause.category = .malformed ∧ ∃ t ∈ us ++ [e], f.position = some t.span.start := by
  obtain ⟨⟨_, c⟩, hr, ⟨⟩⟩ := Option.map_eq_some_iff.1 h
  let R (t t' : Token) : Prop := t = t' ∧ t ∈ us ++ [e]
  have hR : Likens R := by
    constructor
    all_goals
      rintro t t' ⟨rfl, -⟩
      rfl
  have htokens : List.Forall₂ R (completed (us ++ [e]) file) (completed (us ++ [e]) file) := by
    rw [completed_append_end he, List.forall₂_same]
    exact fun t ht => ⟨rfl, ht⟩
  have hends := parse_endsAlike hR htokens
  rw [hr] at hends
  obtain ⟨hcause, t, t', ⟨-, ht⟩, hposition⟩ := hends.located
  exact ⟨hcause, t, ht, hposition⟩

/-- What is known of a fault at the place `p` that stopped the reading of a source. -/
structure Fault.OfReading (source : String) (file : Option String) (f : Fault) (p : Position) :
    Prop where
  named : p.file = file.getD unnamedSource
  /-- It is at a token, or at the character that starts none. -/
  place : (∃ ts, tokenize source file = .ok ts ∧ ∃ t ∈ ts, p = t.span.start) ∨
    ∃ c cs, tokenize source file = .error f ∧ f.cause = .unrecognised (String.singleton c) ∧
      Remains source p.offset.toNat (c :: cs) ∧ Stuck (c :: cs)
  inside : p.offset.toNat ≤ source.utf8ByteSize
  boundary : IsBoundary source p.offset.toNat
  /-- There is a line to show. -/
  line : ∃ line, Text.Line.at? source.toList p.offset.toNat = some line

theorem exists_line {source : String} {n : Nat} (h : n ≤ source.utf8ByteSize) :
    ∃ line, Text.Line.at? source.toList n = some line := by
  rw [← Option.ne_none_iff_exists', Ne, Text.Line.at?_eq_none_iff, Text.width_toList]
  omega

theorem tokenize_fault {source : String} {file : Option String} {f : Fault}
    (hsize : source.utf8ByteSize < UInt32.size) (h : tokenize source file = .error f) :
    f.cause.category = .malformed ∧ ∃ p, f.position = some p ∧ f.OfReading source file p := by
  obtain ⟨us, n, c, cs, hs, hstuck, rfl⟩ := tokenize_eq_error_iff.1 h
  have hr := (hs.remains (remains_zero source)).2
  have hle : n ≤ source.utf8ByteSize := by
    have := hr.add_width_eq
    omega
  have hn : (Position.ofNat n (file.getD unnamedSource)).offset.toNat = n :=
    UInt32.toNat_ofNat_of_lt (by omega)
  refine ⟨rfl, _, rfl, rfl, .inr ⟨c, cs, h, rfl, ?_, hstuck⟩, ?_, ?_, ?_⟩
  all_goals rw [hn]
  · exact hr
  · exact hle
  · exact hr.isBoundary
  · exact exists_line hle

/-- Every token begins within the source, at a character or at the end. -/
theorem Segmented.token_start {source file : String} {us : List Token} {n : Nat} {t : Token}
    (h : Segmented file 0 source.toList us n []) (hsize : source.utf8ByteSize < UInt32.size)
    (ht : t ∈ us ++ [Token.eof (.ofNat n) file]) :
    t.span.start.file = file ∧ t.start ≤ source.utf8ByteSize ∧ IsBoundary source t.start := by
  have hr := remains_zero source
  rcases List.mem_append.1 ht with ht | ht
  · obtain ⟨m, w, -, hpiece⟩ := h.exists_piece hr t ht
    have hle := hpiece.add_width_le
    have hfile : t.span.start.file = file := by
      obtain ⟨-, -, -⟩ := hpiece
      rfl
    rw [hpiece.start_eq hsize]
    exact ⟨hfile, by omega, hpiece.isBoundary.1⟩
  · obtain rfl := List.mem_singleton.1 ht
    have hrest := (h.remains hr).2
    obtain rfl : n = source.utf8ByteSize := hrest.add_width_eq
    rw [(Token.offsets_eof hsize file).1]
    exact ⟨rfl, Nat.le_refl _, hrest.isBoundary⟩

theorem readSource_fault {source : String} {file : Option String} {f : Fault}
    (hsize : source.utf8ByteSize < UInt32.size) (h : readSource source file = some (.error f)) :
    f.cause.category = .malformed ∧ ∃ p, f.position = some p ∧ f.OfReading source file p := by
  cases ht : tokenize source file with
  | error fault =>
    rw [readSource, ht] at h
    cases h
    exact tokenize_fault hsize ht
  | ok ts =>
    rw [readSource, ht] at h
    obtain ⟨us, n, hs, rfl⟩ := tokenize_eq_ok_iff.1 ht
    obtain ⟨hcause, t, hmem, hposition⟩ := parse_fault rfl h
    obtain ⟨hfile, hle, hboundary⟩ := hs.token_start hsize hmem
    exact ⟨hcause, _, hposition, hfile, .inl ⟨_, ht, t, hmem, rfl⟩, hle, hboundary, exists_line hle⟩

/-! ## Running -/

/-- The fault comes from the values at hand, neither from the source nor from the sink. -/
def Cause.OfValues (c : Cause) : Prop := c.category ≠ .malformed ∧ c.category ≠ .output

theorem Arithmetic.apply_fault {op : Arithmetic} {l r : Value} {c : Cause}
    (h : op.apply l r = .error c) : c.OfValues := by
  unfold apply at h
  split at h
  · cases h
    exact ⟨nofun, nofun⟩
  · split at h
    · cases h
      exact ⟨nofun, nofun⟩
    · unfold compute at h
      split at h <;> cases h
      exact ⟨nofun, nofun⟩

theorem Logical.apply_fault {op : Logical} {l r : Value} {c : Cause}
    (h : op.apply l r = .error c) : c.OfValues := by
  unfold apply at h
  split at h <;> cases h
  exact ⟨nofun, nofun⟩

theorem Comparison.apply_fault {op : Comparison} {l r : Value} {c : Cause}
    (h : op.apply l r = .error c) : c.OfValues := by
  unfold apply at h
  split at h <;> cases h
  exact ⟨nofun, nofun⟩

theorem Value.negate_fault {v : Value} {c : Cause} (h : v.negate = .error c) : c.OfValues := by
  unfold negate at h
  split at h <;> cases h
  exact ⟨nofun, nofun⟩

theorem Construct.decide_fault {construct : Construct} {v : Value} {c : Cause}
    (h : construct.decide v = .error c) : c.OfValues := by
  unfold Construct.decide at h
  split at h <;> cases h
  exact ⟨nofun, nofun⟩

namespace Action

variable {change : Sink → Except String Unit × Sink} {m : Machine} {s : Sink}

theorem onSink_ok (h : change m.sink = (.ok (), s)) :
    onSink change m = some (.ok (), ⟨m.arena, s⟩) := by
  simp only [onSink, h]

theorem onSink_error {message : String} (h : change m.sink = (.error message, s)) :
    onSink change m = some (.error (.outputFailed message), ⟨m.arena, s⟩) := by
  simp only [onSink, h]

end Action

/-- After it took in some bytes, the sink refused a text or a flush and was left as `s'`. -/
def Sink.Fails (s : Sink) (message : String) (s' : Sink) : Prop :=
  ∃ out : ByteArray, s.Fits out.size ∧
    ((∃ text, (s.keep out).write text = (.error message, s')) ∨
      (s.keep out).flush = (.error message, s'))

theorem Sink.Fails.of_keep {s s' : Sink} {out : ByteArray} {message : String}
    (hout : s.Fits out.size) (h : (s.keep out).Fails message s') : s.Fails message s' := by
  obtain ⟨more, hmore, h⟩ := h
  rw [fits_keep hout, ← ByteArray.size_append] at hmore
  rw [keep_keep] at h
  exact ⟨out ++ more, hmore, h⟩

/-- No fault of the action is one of reading, and a fault of output comes from a sink that failed.
Where it succeeds, all that it wrote was taken in. -/
structure Honest {α : Type} (x : Action α) : Prop where
  ok : ∀ {m : Machine} {a : α} {m' : Machine}, x m = some (.ok a, m') →
    ∃ out, m.sink.Fits out.size ∧ m'.sink = m.sink.keep out
  error : ∀ {m : Machine} {c : Cause} {m' : Machine}, x m = some (.error c, m') →
    c.category ≠ .malformed ∧
      (c.category = .output → ∃ message, c = .outputFailed message ∧ m.sink.Fails message m'.sink)

namespace Honest

variable {α β : Type}

/-- An action that leaves its sink alone. -/
theorem of_silent {x : Action α}
    (hsink : ∀ {m r m'}, x m = some (r, m') → m'.sink = m.sink)
    (hcause : ∀ {m c m'}, x m = some (.error c, m') → c.OfValues) : Honest x where
  ok := by
    intro m a m' h
    exact ⟨.empty, m.sink.fits_zero, by rw [hsink h, Sink.keep_empty]⟩
  error := by
    intro m c m' h
    exact ⟨(hcause h).1, fun ho => absurd ho (hcause h).2⟩

theorem pure (a : α) : Honest (Pure.pure a : Action α) := by
  refine of_silent (fun h => ?_) (fun h => ?_)
  · cases h
    rfl
  · cases h

theorem ofExcept {r : Except Cause α} (hr : ∀ {c}, r = .error c → c.OfValues) :
    Honest (Attempt.ofExcept r) := by
  refine of_silent (fun h => ?_) (fun h => ?_)
  · cases h
    rfl
  · cases h
    exact hr rfl

theorem spent : Honest (Attempt.spent : Action α) := by
  constructor <;> intro m r m' h <;> cases h

theorem bind {x : Action α} {f : α → Action β} (hx : Honest x) (hf : ∀ a, Honest (f a)) :
    Honest (x >>= f) where
  ok := by
    intro m b m' h
    obtain ⟨a, m₁, h₁, h₂⟩ := Attempt.bind_ok_iff.1 h
    obtain ⟨out, hout, hm₁⟩ := hx.ok h₁
    obtain ⟨more, hmore, hm'⟩ := (hf a).ok h₂
    rw [hm₁, Sink.fits_keep hout, ← ByteArray.size_append] at hmore
    exact ⟨out ++ more, hmore, by rw [hm', hm₁, Sink.keep_keep]⟩
  error := by
    intro m c m' h
    rcases Attempt.bind_error_iff.1 h with h₁ | ⟨a, m₁, h₁, h₂⟩
    · exact hx.error h₁
    · obtain ⟨out, hout, hm₁⟩ := hx.ok h₁
      obtain ⟨hne, hfails⟩ := (hf a).error h₂
      refine ⟨hne, fun ho => ?_⟩
      obtain ⟨message, hc, hs⟩ := hfails ho
      rw [hm₁] at hs
      exact ⟨message, hc, hs.of_keep hout⟩

theorem state {f : Machine → Action α} (hf : ∀ m, Honest (f m)) :
    Honest (Attempt.state >>= f) :=
  bind (of_silent (fun h => by cases h; rfl) (fun h => by cases h)) hf

theorem read (env : Env) (x : String) : Honest (Action.read env x) := by
  refine of_silent (fun h => ?_) (fun h => ?_)
  · rw [Action.read_apply] at h
    split at h <;> cases h <;> rfl
  · rw [Action.read_apply] at h
    split at h <;> cases h
    exact ⟨nofun, nofun⟩

theorem assign (x : String) (r : Evaluation) : Honest (Action.assign x r) := by
  refine of_silent (fun h => ?_) (fun h => ?_)
  · rw [Action.assign_apply] at h
    split at h
    · cases h
      rfl
    · split at h <;> cases h <;> rfl
  · rw [Action.assign_apply] at h
    split at h
    · cases h
    · split at h <;> cases h
      exact ⟨nofun, nofun⟩

/-- An action on the sink fails with the sink. -/
theorem onSink {change : Sink → Except String Unit × Sink}
    (hok : ∀ {s s'}, change s = (.ok (), s') → ∃ out, s.Fits out.size ∧ s' = s.keep out)
    (herror : ∀ {s message s'}, change s = (.error message, s') → s.Fails message s') :
    Honest (Action.onSink change) where
  ok := by
    intro m a m' h
    rcases hs : change m.sink with ⟨message | u, s⟩
    · rw [Action.onSink_error hs] at h
      cases h
    · rw [Action.onSink_ok hs] at h
      cases h
      exact hok hs
  error := by
    intro m c m' h
    rcases hs : change m.sink with ⟨message | u, s⟩
    · rw [Action.onSink_error hs] at h
      cases h
      exact ⟨nofun, fun _ => ⟨message, rfl, herror hs⟩⟩
    · rw [Action.onSink_ok hs] at h
      cases h

theorem writeLine (text : String) : Honest (Action.writeLine text) := by
  unfold Action.writeLine Action.write
  refine onSink (fun {s s'} h => ?_) (fun {s message s'} h => ?_)
  · rw [Sink.write_eq] at h
    split at h
    · next hfits =>
      obtain ⟨-, rfl⟩ := Prod.mk.inj h
      rw [hfits, ByteArray.extract_zero_size]
      exact ⟨_, hfits, rfl⟩
    · cases h
  · refine ⟨.empty, s.fits_zero, .inl ⟨text ++ "\n", ?_⟩⟩
    rw [Sink.keep_empty, h]

theorem flush : Honest Action.flush := by
  refine onSink (fun {s s'} h => ?_) (fun {s message s'} h => ?_)
  · obtain ⟨-, rfl⟩ := Prod.mk.inj h
    exact ⟨.empty, s.fits_zero, s.keep_empty.symm⟩
  · exact ⟨.empty, s.fits_zero, .inr (by rw [Sink.keep_empty, h])⟩

theorem repeatWhile {condition body : Env → Action Evaluation}
    (hc : ∀ env, Honest (condition env)) (hb : ∀ env, Honest (body env)) (n : Nat)
    (last : Evaluation) : Honest (repeatWhile condition body n last) := by
  induction n generalizing last with
  | zero => exact spent
  | succ n ih =>
    refine (hc last.env).bind fun checked => (ofExcept Construct.decide_fault).bind fun b => ?_
    cases b
    · exact pure last
    · exact (hb checked.env).bind ih

end Honest

namespace Expr

theorem operands_honest {rounds : Nat} {l r : Expr} {env : Env} (hl : Honest (l.eval rounds env))
    (hr : ∀ env, Honest (r.eval rounds env)) {f : Value → Value → Except Cause Value}
    (hf : ∀ {v w c}, f v w = .error c → c.OfValues) :
    Honest (do
      let left ← l.eval rounds env
      let right ← r.eval rounds left.env
      let value ← Attempt.ofExcept (f left.value right.value)
      return (⟨value, right.env⟩ : Evaluation)) :=
  hl.bind fun left => (hr left.env).bind fun _ => (Honest.ofExcept hf).bind fun _ => Honest.pure _

mutual

/-- **Evaluation never fails as reading does**, and it blames the sink only where the sink
failed. -/
theorem eval_honest (rounds : Nat) (e : Expr) (env : Env) : Honest (e.eval rounds env) := by
  cases e with
  | literal v => exact Honest.pure _
  | var x => exact Honest.read env x
  | assign x e => exact (eval_honest rounds e env).bind fun r => Honest.assign x r
  | arithmetic op l r =>
    exact operands_honest (eval_honest rounds l env) (eval_honest rounds r) Arithmetic.apply_fault
  | logical op l r =>
    exact operands_honest (eval_honest rounds l env) (eval_honest rounds r) Logical.apply_fault
  | comparison op l r =>
    exact operands_honest (eval_honest rounds l env) (eval_honest rounds r) Comparison.apply_fault
  | not e =>
    exact (eval_honest rounds e env).bind fun r => (Honest.ofExcept Value.negate_fault).bind
      fun _ => Honest.pure _
  | branch c y n =>
    refine (eval_honest rounds c env).bind fun checked =>
      (Honest.ofExcept Construct.decide_fault).bind fun b => ?_
    cases b
    · exact eval_honest rounds n checked.env
    · exact eval_honest rounds y checked.env
  | loop c b =>
    exact Honest.repeatWhile (eval_honest rounds c) (eval_honest rounds b) rounds (.unit env)
  | sequence es | program es => exact evalAll_honest rounds es (.unit env)
  | print e =>
    exact (eval_honest rounds e env).bind fun r => (Honest.writeLine _).bind fun _ => Honest.pure _

theorem evalAll_honest (rounds : Nat) (es : List Expr) (last : Evaluation) :
    Honest (evalAll rounds es last) := by
  cases es with
  | nil => exact Honest.pure _
  | cons e es => exact (eval_honest rounds e last.env).bind fun r => evalAll_honest rounds es r

end

end Expr

theorem runAction_honest (rounds : Nat) (program : Expr) (debug : Bool) :
    Honest (runAction rounds program debug) := by
  have dump_honest (f : Finish) : Honest (dump program f) :=
    (Honest.writeLine _).bind fun _ => (Honest.writeLine _).bind fun _ =>
      (Honest.writeLine _).bind fun _ => Honest.flush
  refine (program.eval_honest rounds none).bind fun r => Honest.state fun m => ?_
  cases debug with
  | false => exact Honest.pure _
  | true => exact (dump_honest _).bind fun _ => Honest.pure _

theorem run_fault {rounds : Nat} {program : Expr} {debug : Bool} {sink s : Sink} {f : Fault}
    (h : run rounds program debug sink = some (.error f, s)) :
    f.position = none ∧ f.cause.category ≠ .malformed ∧
      (f.cause.category = .output →
        ∃ message, f.cause = .outputFailed message ∧ sink.Fails message s) := by
  obtain ⟨_ | _, m, hq, hf, rfl⟩ := run_eq_some_iff.1 h
  · cases hf
    exact ⟨rfl, (runAction_honest rounds program debug).error hq⟩
  · cases hf

/-! ## Sources -/

/-- **The faults of a source.** Those of reading have the place of a token or of what starts none,
and come before any output; those of output come from the sink. -/
theorem runSource_faults :
    (∀ {rounds : Nat} {source : String} {file : Option String} {debug : Bool} {sink s : Sink}
      {f : Fault}, source.utf8ByteSize < UInt32.size →
      runSource rounds source file debug sink = some (.error f, s) →
      (f.position.isSome = true ↔ f.cause.category = .malformed) ∧
      (f.cause.category = .malformed →
        s = sink ∧ ∃ p, f.position = some p ∧ f.OfReading source file p) ∧
      (f.cause.category = .output →
        ∃ message, f.cause = .outputFailed message ∧ sink.Fails message s)) ∧
    ∀ {rounds : Nat} {s s' : Session} {env : Env} {e : Expr} {f : Fault},
      s.submit rounds env e = some (.error f, s') →
      f.position = none ∧ f.cause.category ≠ .malformed := by
  refine ⟨?_, ?_⟩
  · intro rounds source file debug sink s f hsize h
    obtain ⟨r, hread, h⟩ := Option.bind_eq_some_iff.1 h
    cases r with
    | error fault =>
      cases h
      obtain ⟨hcause, p, hp, hplace⟩ := readSource_fault hsize hread
      refine ⟨by simp [hp, hcause], fun _ => ⟨rfl, p, hp, hplace⟩, fun ho => ?_⟩
      rw [hcause] at ho
      cases ho
    | ok program =>
      obtain ⟨hp, hne, hfails⟩ := run_fault h
      exact ⟨by simp [hp, hne], fun hc => absurd hc hne, hfails⟩
  · intro rounds s s' env e f h
    obtain ⟨⟨r, m⟩, he, hr⟩ := Option.map_eq_some_iff.1 h
    cases r with
    | ok a => cases hr
    | error c =>
      cases hr
      exact ⟨rfl, ((e.eval_honest rounds env).error he).1⟩

/-- On a sink without room one source is not read, and the other is stopped. -/
theorem runSource_faults_full :
    let source := "\"é\" 1"
    let fault := Fault.located (.unexpected "1") ⟨5, "a"⟩
    let sink := Sink.limited 0 "full"
    runSource 0 source (some "a") true sink = some (.error fault, sink) ∧
      fault.OfReading source (some "a") ⟨5, "a"⟩ ∧
      runSource 0 "print(1)" none false sink =
        some (.error (.unlocated (.outputFailed "full")), sink) ∧
      sink.Fails "full" sink := by
  intro source fault sink
  have hread : runSource 0 source (some "a") true sink = some (.error fault, sink) := by
    decide +kernel
  have hrun : runSource 0 "print(1)" none false sink =
      some (.error (.unlocated (.outputFailed "full")), sink) := by decide +kernel
  obtain ⟨-, p, hp, hplace⟩ := (runSource_faults.1 (by decide) hread).2.1 rfl
  cases hp
  obtain ⟨message, hmessage, hfails⟩ := (runSource_faults.1 (by decide) hrun).2.2 rfl
  cases hmessage
  exact ⟨hread, hplace, hrun, hfails⟩

end ExprScript
