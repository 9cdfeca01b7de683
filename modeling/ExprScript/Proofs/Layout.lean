import ExprScript.Proofs.Provenance
import ExprScript.Proofs.Respacing

/-!
# Layout

Blanks and comments may be put anywhere before or after a token. The tokens after that place move on
by the bytes that were put in, and nothing else changes: reading builds the same tree or finds the
same fault, and a run goes as before.

* `insertAt`: a text put into a source.
* `Token.shiftFrom`, `Position.shiftFrom`: what comes at or after a place moves on.
* `Segmented.exists_split`: the pieces before and after a place.
* **`Segmented.scan_insert`**: the tokens of a text with blanks and comments put in.
* `run_map_move`: the faults of running have no place that could move.
* **`runSource_insert`**: layout is insignificant.
-/

namespace ExprScript

/-- The source with the text `w` put in after the first `p` bytes. -/
def insertAt (source : String) (p : Nat) (w : String) : String :=
  slice source 0 p ++ w ++ slice source p source.utf8ByteSize

theorem toList_insertAt {source : String} {p : Nat} {q cs : List Char}
    (h : source.toList = q ++ cs) (hp : p = Text.width q) (w : String) :
    (insertAt source p w).toList = q ++ (w.toList ++ cs) := by
  have hr : Remains source 0 (q ++ cs) := h ▸ remains_zero source
  have hbefore := hr.slice_eq
  have hr' : Remains source p (cs ++ []) := by
    rw [List.append_nil, hp, ← Nat.zero_add (Text.width q)]
    exact hr.append
  have hafter := hr'.slice_eq
  rw [List.append_nil] at hr'
  rw [Nat.zero_add, ← hp] at hbefore
  rw [hr'.add_width_eq] at hafter
  simp [insertAt, hbefore, hafter]

/-! ## Moving on -/

/-- A place at `p` or after it moves on by `k` bytes. -/
def Position.shiftFrom (p k : Nat) (q : Position) : Position :=
  if p ≤ q.offset.toNat then q.shift k else q

/-- A token that starts at `p` or after it moves on by `k` bytes. -/
def Token.shiftFrom (p k : Nat) (t : Token) : Token := if p ≤ t.start then t.shift k else t

theorem Token.shiftFrom_same (p k : Nat) (t : Token) :
    (t.shiftFrom p k).kind = t.kind ∧ (t.shiftFrom p k).value = t.value := by
  unfold shiftFrom
  split <;> exact ⟨rfl, rfl⟩

theorem Token.start_shiftFrom (p k : Nat) (t : Token) :
    (t.shiftFrom p k).span.start = t.span.start.shiftFrom p k := by
  unfold shiftFrom Position.shiftFrom start
  split <;> rfl

/-! ## Pieces before and after a place -/

namespace Segmented

variable {source file : String} {n n' p : Nat} {cs cs' ds : List Char} {ts us vs : List Token}

theorem exists_split {t : Token} (h : Segmented file n cs ts n' cs') (hr : Remains source n cs)
    (hsize : source.utf8ByteSize < UInt32.size) (ht : t ∈ ts ++ [Token.eof (.ofNat n') file])
    (hp : p = t.start ∨ p = t.stop) :
    ∃ us vs ds, ts = us ++ vs ∧ Segmented file n cs us p ds ∧ Segmented file p ds vs n' cs' := by
  induction h with
  | nil n cs =>
    obtain rfl : t = Token.eof (.ofNat n) file := by simpa using ht
    have := hr.add_width_eq
    obtain ⟨hstart, hstop⟩ := Token.offsets_eof (n := n) (by omega) file
    obtain rfl : p = n := by omega
    exact ⟨[], [], cs, rfl, .nil _ _, .nil _ _⟩
  | @token n n' q w rest cs' x ts hm hx hs ih =>
    rcases List.mem_cons.1 ht with rfl | ht
    · have hpiece : Piece source file n w (x.token file n (Text.width w)) := .mk hr hm hx
      rw [hpiece.start_eq hsize, hpiece.stop_eq hsize] at hp
      rcases hp with rfl | rfl
      · exact ⟨[], _, _, rfl, .nil _ _, .token hm hx hs⟩
      · exact ⟨[_], ts, _, rfl, .token hm hx (.nil _ _), hs⟩
    · obtain ⟨us, vs, ds, rfl, hus, hvs⟩ := ih hr.append ht
      exact ⟨_ :: us, vs, ds, rfl, .token hm hx hus, hvs⟩
  | skip hm hskip _ ih =>
    obtain ⟨us, vs, ds, rfl, hus, hvs⟩ := ih hr.append ht
    exact ⟨us, vs, ds, rfl, .skip hm hskip hus, hvs⟩

theorem start_lt (h : Segmented file n cs us p ds) (hr : Remains source n cs)
    (hsize : source.utf8ByteSize < UInt32.size) : ∀ t ∈ us, t.start < p := by
  induction h with
  | nil => simp
  | @token n n' q w rest cs' x ts hm hx hs ih =>
    have hpiece : Piece source file n w (x.token file n (Text.width w)) := .mk hr hm hx
    have := hpiece.width_pos
    have := (hs.remains hr.append).1
    refine List.forall_mem_cons.2 ⟨?_, ih hr.append⟩
    rw [hpiece.start_eq hsize]
    omega
  | skip _ _ _ ih => exact ih hr.append

theorem le_start (h : Segmented file p ds vs n' []) (hr : Remains source p ds)
    (hsize : source.utf8ByteSize < UInt32.size) :
    ∀ t ∈ vs ++ [Token.eof (.ofNat n') file], p ≤ t.start := by
  intro t ht
  rcases List.mem_append.1 ht with ht | ht
  · obtain ⟨m, w, hle, hpiece⟩ := h.exists_piece hr t ht
    rwa [hpiece.start_eq hsize]
  · obtain rfl := List.mem_singleton.1 ht
    obtain ⟨hle, hr'⟩ := h.remains hr
    have := hr'.add_width_eq
    rwa [(Token.offsets_eof (by omega) file).1]

theorem map_shiftFrom (hus : Segmented file n cs us p ds) (hvs : Segmented file p ds vs n' [])
    (hr : Remains source n cs) (hsize : source.utf8ByteSize < UInt32.size) (k : Nat) :
    (us ++ vs ++ [Token.eof (.ofNat n') file]).map (·.shiftFrom p k) =
      us ++ (vs ++ [Token.eof (.ofNat n') file]).map (·.shift k) := by
  have hbefore : us.map (·.shiftFrom p k) = us.map id := by
    refine List.map_congr_left fun t ht => ?_
    exact if_neg (Nat.not_le.2 (hus.start_lt hr hsize t ht))
  have hafter : (vs ++ [Token.eof (.ofNat n') file]).map (·.shiftFrom p k) =
      (vs ++ [Token.eof (.ofNat n') file]).map (·.shift k) := by
    refine List.map_congr_left fun t ht => ?_
    exact if_pos (hvs.le_start (hus.remains hr).2 hsize t ht)
  rw [List.append_assoc, List.map_append, hbefore, List.map_id, hafter]

/-- **Blanks and comments put in between two pieces.** -/
theorem scan_insert {q w : List Char} {c : Char} (hus : Segmented file n (q ++ ds) us p ds)
    (hvs : Segmented file p ds vs n' []) (hw : Trivia False (c :: w))
    (hc : Text.isBlank c = true) :
    (Reader.mk file n (q ++ (c :: w ++ ds))).scan =
      .ok (us ++ (vs ++ [Token.eof (.ofNat n') file]).map (·.shift (Text.width (c :: w)))) := by
  have hbefore : (Reader.mk file n (q ++ c :: (w ++ ds))).scan =
      (Reader.mk file p (c :: (w ++ ds))).scan.map (us ++ ·) :=
    hus.scan_respaced rfl hc fun hds => endsComment_trivia file hw hds
  rw [List.cons_append, hbefore, ← List.cons_append, Reader.scan_trivia file p hw,
    hvs.scan_shift]
  rfl

end Segmented

/-! ## Sources -/

theorem run_map_move (g : Position → Position) (rounds : Nat) (program : Expr) (debug : Bool)
    (sink : Sink) :
    (run rounds program debug sink).map (fun r => (r.1.mapError (Fault.move g), r.2)) =
      run rounds program debug sink := by
  cases h : run rounds program debug sink with
  | none => rfl
  | some r =>
    obtain ⟨_ | f, s⟩ := r
    · next f =>
      have hf : Fault.move g f = f := by
        rw [Fault.move, (run_fault h).1, Option.map_none, ← (run_fault h).1]
      show some (Except.error (Fault.move g f), s) = _
      rw [hf]
    · rfl

theorem readSource_map {source source' : String} {file : Option String} {ts : List Token}
    {p k : Nat} (h : tokenize source file = .ok ts)
    (h' : tokenize source' file = .ok (ts.map (·.shiftFrom p k))) :
    readSource source' file =
      (readSource source file).map (Except.mapError (Fault.move (·.shiftFrom p k))) := by
  rw [readSource, readSource, h, h']
  obtain ⟨us, n, -, rfl⟩ := tokenize_eq_ok_iff.1 h
  exact parse_map (Token.shiftFrom_same p k) rfl (fun t _ => t.start_shiftFrom p k) _

/-- **Layout is insignificant.** Blanks and closed comments may be put in between tokens; only the
places after them move on. -/
theorem runSource_insert {source w : String} {file : Option String} {ts : List Token} {t : Token}
    {p : Nat} {c : Char} {cs : List Char}
    (hsize : source.utf8ByteSize + w.utf8ByteSize < UInt32.size)
    (h : tokenize source file = .ok ts) (ht : t ∈ ts) (hp : p = t.start ∨ p = t.stop)
    (hw : Trivia False w.toList) (hcs : w.toList = c :: cs) (hc : Text.isBlank c = true) :
    tokenize (insertAt source p w) file = .ok (ts.map (·.shiftFrom p w.utf8ByteSize)) ∧
      ∀ rounds debug sink, runSource rounds (insertAt source p w) file debug sink =
        (runSource rounds source file debug sink).map fun r =>
          (r.1.mapError (Fault.move (·.shiftFrom p w.utf8ByteSize)), r.2) := by
  have htokens : tokenize (insertAt source p w) file =
      .ok (ts.map (·.shiftFrom p w.utf8ByteSize)) := by
    obtain ⟨us, n, hs, rfl⟩ := tokenize_eq_ok_iff.1 h
    have hr := remains_zero source
    have hsize' : source.utf8ByteSize < UInt32.size := by omega
    obtain ⟨us, vs, ds, rfl, hus, hvs⟩ := hs.exists_split hr hsize' ht hp
    obtain ⟨q, hq, hp⟩ := hus.exists_append
    rw [Nat.zero_add] at hp
    rw [hus.map_shiftFrom hvs hr hsize', tokenize, Reader.start, toList_insertAt hq hp,
      ← Text.width_toList w, hcs]
    rw [hq] at hus
    exact hus.scan_insert hvs (hcs ▸ hw) hc
  refine ⟨htokens, fun rounds debug sink => ?_⟩
  rw [runSource, runSource, readSource_map h htokens]
  cases readSource source file with
  | none => rfl
  | some r =>
    cases r with
    | error f => rfl
    | ok program => exact (run_map_move _ rounds program debug sink).symm

/-- At the end of the source the first blank goes into the comment there. -/
theorem runSource_insert_comment :
    let source := "(1//à"
    let w := " //é\n"
    let ts : List Token := [⟨.openParen, "(", .ofNat 0 1 "shell"⟩,
      ⟨.number, "1", .ofNat 1 2 "shell"⟩, .eof 6 "shell"]
    let fault (n : UInt32) :=
      Fault.located (.unexpectedFor "EOF" "expected CloseParen") ⟨n, "shell"⟩
    tokenize source none = .ok ts ∧ Trivia False w.toList ∧
      runSource 0 source none false .unlimited = some (.error (fault 6), .unlimited) ∧
      tokenize (insertAt source 6 w) none =
        .ok [⟨.openParen, "(", .ofNat 0 1 "shell"⟩, ⟨.number, "1", .ofNat 1 2 "shell"⟩,
          .eof 12 "shell"] ∧
      runSource 0 (insertAt source 6 w) none false .unlimited =
        some (.error (fault 12), .unlimited) := by
  intro source w ts fault
  have h : tokenize source none = .ok ts := by decide +kernel
  have hlist : w.toList = ' ' :: '/' :: '/' :: (['é'] ++ ['\n']) := by decide
  have hw : Trivia False w.toList := by
    rw [hlist]
    exact .blank rfl (.comment (by decide) (.blank rfl .nil))
  have hrun : runSource 0 source none false .unlimited = some (.error (fault 6), .unlimited) := by
    decide +kernel
  have hend : Token.eof 6 "shell" ∈ ts := by decide
  obtain ⟨htokens, hmoved⟩ :=
    runSource_insert (p := 6) (by decide) h hend (.inl rfl) hw hlist rfl
  rw [htokens, hmoved, hrun]
  exact ⟨h, hw, rfl, rfl, rfl⟩

end ExprScript
