import ExprScript.Proofs.Tiling

/-!
# Blanks and comments in between

A blank ends every token, so what comes after it does not change the tokens before it. Blanks and
comments themselves are passed over, whatever stands after them.

* `Reader.scan_blank`, `Reader.scan_comment`, **`Reader.scan_trivia`**: passing over.
* **`Munch.before_blank`**: the piece of a token is taken wherever a blank comes after it.
* **`Segmented.scan_respaced`**: the tokens before a place stay, if a blank comes next.
* `Token.shift`, **`Segmented.shift`**: the same text further on in a source.
-/

namespace ExprScript

/-! ## Passing over blanks and comments -/

namespace Pattern

theorem first?_blank {c : Char} (hc : Text.isBlank c = true) (cs : List Char) :
    first? (c :: cs) = some blanks := by
  have hmem : blanks ∈ table := by decide
  have hlongest : blanks.longest (c :: cs) ≠ [] := by simp [longest, hc]
  cases hp : first? (c :: cs) with
  | none => exact absurd hlongest (by simpa using List.find?_eq_none.1 hp blanks hmem)
  | some p =>
    have hinitial := initial_eq_of_longest (List.mem_of_find?_eq_some hp) hmem
      (longest_ne_nil_of_first? hp) hlongest
    cases p <;> first | rfl | cases hinitial

end Pattern

namespace Reader

variable (file : String) (n : Nat)

theorem scan_dropWhile_blank (cs : List Char) :
    (Reader.mk file n cs).scan =
      (Reader.mk file (n + Text.width (cs.takeWhile Text.isBlank))
        (cs.dropWhile Text.isBlank)).scan := by
  cases cs with
  | nil => rfl
  | cons c cs =>
    cases hc : Text.isBlank c with
    | false => simp [hc]
    | true =>
      have hm : Munch ((c :: cs).takeWhile Text.isBlank ++ (c :: cs).dropWhile Text.isBlank) .blanks
          ((c :: cs).takeWhile Text.isBlank) := by
        rw [List.takeWhile_append_dropWhile]
        exact munch_iff.2 ⟨Pattern.first?_blank hc cs, rfl⟩
      have hscan := hm.scan_eq file n
      rw [(hm.emit_eq file n).2 (.inl rfl), List.takeWhile_append_dropWhile] at hscan
      rw [hscan]
      cases scan _ <;> rfl

theorem scan_blank {c : Char} (hc : Text.isBlank c = true) (cs : List Char) :
    (Reader.mk file n (c :: cs)).scan = (Reader.mk file (n + c.utf8Size) cs).scan := by
  rw [scan_dropWhile_blank, scan_dropWhile_blank file _ cs, List.takeWhile_cons_of_pos hc,
    List.dropWhile_cons_of_pos hc, Text.width_cons, Nat.add_assoc]

theorem scan_comment {ds rest : List Char} (hds : '\n' ∉ ds)
    (hrest : rest = [] ∨ ∃ cs, rest = '\n' :: cs) :
    (Reader.mk file n ('/' :: '/' :: (ds ++ rest))).scan =
      (Reader.mk file (n + Text.width ('/' :: '/' :: ds)) rest).scan := by
  have hline : (ds ++ rest).takeWhile (· ≠ '\n') = ds := by
    refine (span_append (fun c hc => ?_) fun c cs hcs => ?_).1
    · simpa using ne_of_mem_of_not_mem hc hds
    · obtain rfl | ⟨cs', rfl⟩ := hrest
      · cases hcs
      · cases hcs
        rfl
  have hlongest : Pattern.comment.longest ('/' :: '/' :: (ds ++ rest)) = '/' :: '/' :: ds := by
    rw [Pattern.longest, hline]
  have hm : Munch ('/' :: '/' :: ds ++ rest) .comment ('/' :: '/' :: ds) :=
    munch_iff.2 ⟨rfl, hlongest⟩
  have hscan := hm.scan_eq file n
  rw [(hm.emit_eq file n).2 (.inr rfl)] at hscan
  rw [← List.cons_append, ← List.cons_append, hscan]
  cases scan _ <;> rfl

/-- **Blanks and closed comments are passed over**, whatever comes after them. -/
theorem scan_trivia {w : List Char} (hw : Trivia False w) (rest : List Char) :
    (Reader.mk file n (w ++ rest)).scan = (Reader.mk file (n + Text.width w) rest).scan := by
  induction hw generalizing n with
  | nil => rfl
  | blank hc _ ih =>
    rw [List.cons_append, scan_blank file n hc, ih, Text.width_cons, Nat.add_assoc]
  | comment hds _ ih =>
    rw [List.cons_append, List.cons_append, List.append_assoc, List.cons_append,
      scan_comment file n hds (.inr ⟨_, rfl⟩), ← List.cons_append, ih]
    congr 2
    simp only [Text.width_cons, Text.width_append]
    omega
  | lastComment hlast => exact hlast.elim

end Reader

/-! ## Tokens before a blank -/

theorem isBlank_of_isWordChar {c : Char} (h : isWordChar c = true) : Text.isBlank c = false := by
  have hc : isWordStart c = true ∨ c.isDigit = true := by
    simp only [isWordChar, isWordStart, Char.isAlphanum, Bool.or_eq_true] at h ⊢
    tauto
  rcases hc with hc | hc
  · have := toNat_of_isWordStart hc
    exact isBlank_of_toNat (by omega) (by omega)
  · have := toNat_of_isDigit hc
    exact isBlank_of_toNat (by omega) (by omega)

theorem Pattern.Accepts.isBlank_eq {p : Pattern} (hp : p ∈ table) {w : List Char}
    (h : p.Accepts w) (hblank : p.initial ≠ .blank) (hquoted : p ≠ .quoted)
    (hcomment : p ≠ .comment) : ∀ c ∈ w, Text.isBlank c = false := by
  have digit {c : Char} (hc : c.isDigit = true) : Text.isBlank c = false := by
    have := toNat_of_isDigit hc
    exact isBlank_of_toNat (by omega) (by omega)
  cases h with
  | @word d ds hd hds =>
    rw [List.forall_mem_cons]
    have := toNat_of_isWordStart hd
    exact ⟨isBlank_of_toNat (by omega) (by omega), fun c hc => isBlank_of_isWordChar (hds c hc)⟩
  | whole h => exact fun c hc => digit (h.2 c hc)
  | decimal ha hb =>
    rw [List.forall_mem_append, List.forall_mem_cons]
    exact ⟨fun c hc => digit (ha.2 c hc), rfl, fun c hc => digit (hb.2 c hc)⟩
  | blanks => exact absurd rfl hblank
  | quoted => exact absurd rfl hquoted
  | comment => exact absurd rfl hcomment
  | mark kind spelling =>
    have := check_of_mark_mem_table (fun _ s => s.toList.all fun c => !Text.isBlank c) (by decide)
      hp
    simpa using this

theorem Pattern.Accepts.eq_of_quoted {w z : List Char} (h : Pattern.quoted.Accepts w)
    (h' : Pattern.quoted.Accepts (w ++ z)) : z = [] := by
  cases h with
  | @quoted body hbody =>
    generalize hv : '"' :: (body ++ ['"']) ++ z = v at h'
    cases h' with
    | @quoted body' hbody' =>
      have htail : body ++ '"' :: z = body' ++ ['"'] := by simpa using hv
      have hcut := hbody.untilQuote? z
      rw [htail, hbody'.untilQuote? [], ← htail] at hcut
      simpa using hcut

theorem Pattern.Accepts.comment_before_blank {u v : List Char} {c : Char}
    (h : Pattern.comment.Accepts (u ++ c :: v)) (hc : Text.isBlank c = true) :
    Pattern.comment.Accepts u := by
  generalize hw : u ++ c :: v = w at h
  cases h with
  | @comment ds hds =>
    rcases u with _ | ⟨a, _ | ⟨b, u⟩⟩
    · cases hw
      cases hc
    · cases hw
      cases hc
    · obtain ⟨rfl, rfl, rfl⟩ : a = '/' ∧ b = '/' ∧ u ++ c :: v = ds := by simpa using hw
      exact .comment fun hu => hds (List.mem_append_left _ hu)

theorem Munch.not_comment {p : Pattern} {w q r : List Char} {x : Lexeme}
    (h : Munch (w ++ (q ++ r)) p w) (hx : p.Stands w x) : ¬ Pattern.comment.Accepts (w ++ q) := by
  intro hcomment
  have hmem : Pattern.comment ∈ Pattern.table := by decide
  have hlen := h.longest _ hmem _ hcomment ⟨r, by rw [List.append_assoc]⟩
  obtain rfl : q = [] := by
    rw [List.length_append] at hlen
    exact List.length_eq_zero_iff.1 (by omega)
  rw [List.append_nil] at hcomment
  have hm : Munch (w ++ ([] ++ r)) .comment w := ⟨hmem, hcomment, h.begins, h.longest⟩
  have hp := (munch_iff.1 h).1
  rw [(munch_iff.1 hm).1] at hp
  cases hp
  cases hx

theorem Munch.not_accepts_blank {p p' : Pattern} {w q r v : List Char} {c : Char} {x : Lexeme}
    (h : Munch (w ++ (q ++ r)) p w) (hx : p.Stands w x) (hc : Text.isBlank c = true)
    (hp' : p' ∈ Pattern.table) : ¬ p'.Accepts (w ++ (q ++ c :: v)) := by
  intro hv
  have hinitial : p'.initial = p.initial := by
    obtain ⟨d, ds, rfl⟩ := List.exists_cons_of_ne_nil h.ne_nil
    exact (hv.ofChar_eq hp').symm.trans (h.accepts.ofChar_eq h.mem)
  by_cases hquoted : p' = .quoted
  · subst hquoted
    obtain rfl : p = .quoted := by cases p <;> first | rfl | cases hinitial
    have hnil := h.accepts.eq_of_quoted hv
    simp at hnil
  by_cases hcomment : p' = .comment
  · subst hcomment
    rw [← List.append_assoc] at hv
    exact h.not_comment hx (hv.comment_before_blank hc)
  · have hblank := hv.isBlank_eq hp' (hinitial ▸ hx.initial_ne) hquoted hcomment c (by simp)
    rw [hc] at hblank
    cases hblank

/-- **The piece of a token is taken wherever a blank comes after it**, at once or later. -/
theorem Munch.before_blank {p : Pattern} {w q r : List Char} {c : Char} {x : Lexeme}
    (h : Munch (w ++ (q ++ r)) p w) (hx : p.Stands w x) (hc : Text.isBlank c = true)
    (r' : List Char) : Munch (w ++ (q ++ c :: r')) p w where
  mem := h.mem
  accepts := h.accepts
  begins := List.prefix_append _ _
  longest := by
    intro p' hp' v hv hbegins
    by_contra hlonger
    obtain ⟨v, rfl⟩ : w <+: v :=
      List.prefix_of_prefix_length_le (List.prefix_append _ _) hbegins (by omega)
    rw [List.prefix_append_right_inj] at hbegins
    -- what ends before the blank could have been taken before
    rcases List.prefix_or_prefix_of_prefix hbegins (⟨r', by simp⟩ : q ++ [c] <+: q ++ c :: r')
      with hvq | ⟨v, rfl⟩
    · rcases List.prefix_concat_iff.1 hvq with rfl | hvq
      · exact h.not_accepts_blank hx hc hp' hv
      · have hv' : w ++ v <+: w ++ (q ++ r) :=
          (List.prefix_append_right_inj w).2 (hvq.trans (List.prefix_append _ _))
        exact hlonger (h.longest p' hp' _ hv hv')
    · rw [List.append_assoc] at hv
      exact h.not_accepts_blank hx hc hp' hv

/-! ## The text after a place -/

theorem Segmented.exists_append {file : String} {n n' : Nat} {cs cs' : List Char} {ts : List Token}
    (h : Segmented file n cs ts n' cs') : ∃ q, cs = q ++ cs' ∧ n' = n + Text.width q := by
  induction h with
  | nil => exact ⟨[], rfl, rfl⟩
  | @token _ _ _ w _ _ _ _ _ _ _ ih | @skip _ _ _ w _ _ _ _ _ _ ih =>
    obtain ⟨q, rfl, rfl⟩ := ih
    exact ⟨w ++ q, (List.append_assoc _ _ _).symm, by rw [Text.width_append, Nat.add_assoc]⟩

/-- A comment right before the text may be passed over by itself: it does not matter how far it goes
on into the text. -/
def EndsComment (file : String) (rest : List Char) : Prop :=
  ∀ n ds, '\n' ∉ ds → (Reader.mk file n ('/' :: '/' :: (ds ++ rest))).scan =
    (Reader.mk file (n + Text.width ('/' :: '/' :: ds)) rest).scan

theorem endsComment_trivia (file : String) {w rest : List Char} (hw : Trivia False w)
    (hrest : rest = [] ∨ ∃ cs, rest = '\n' :: cs) : EndsComment file (w ++ rest) := by
  intro n ds hds
  induction hw generalizing ds with
  | nil => exact Reader.scan_comment file n hds hrest
  | @blank c cs hc _ ih =>
    by_cases hnewline : c = '\n'
    · exact Reader.scan_comment file n hds (.inr ⟨cs ++ rest, by rw [hnewline]; rfl⟩)
    · -- the blank belongs to the comment
      have hds' : '\n' ∉ ds ++ [c] := by simp [hds, Ne.symm hnewline]
      rw [List.cons_append, List.append_cons, ih _ hds', Reader.scan_blank file _ hc]
      congr 2
      simp only [Text.width_cons, Text.width_append, Text.width_nil]
      omega
  | @comment ds' cs hds' _ _ =>
    -- the second comment belongs to the first
    have hboth : '\n' ∉ ds ++ '/' :: '/' :: ds' := by simp [hds, hds']
    have hassoc : '/' :: '/' :: (ds' ++ '\n' :: cs) ++ rest =
        '/' :: '/' :: (ds' ++ '\n' :: (cs ++ rest)) := by simp
    have hassoc' : ds ++ '/' :: '/' :: (ds' ++ '\n' :: (cs ++ rest)) =
        (ds ++ '/' :: '/' :: ds') ++ '\n' :: (cs ++ rest) := by simp
    rw [hassoc, Reader.scan_comment file _ hds' (.inr ⟨_, rfl⟩), hassoc',
      Reader.scan_comment file n hboth (.inr ⟨_, rfl⟩)]
    congr 2
    simp only [Text.width_cons, Text.width_append]
    omega
  | lastComment hlast => exact hlast.elim

/-- **What comes after a blank does not change the tokens before it.** -/
theorem Segmented.scan_respaced {file : String} {n m : Nat} {cs cs' q r : List Char} {c : Char}
    {us : List Token} (h : Segmented file n cs us m cs') (hcs : cs = q ++ cs')
    (hc : Text.isBlank c = true)
    (hcomment : (cs' = [] ∨ ∃ ds, cs' = '\n' :: ds) → EndsComment file (c :: r)) :
    (Reader.mk file n (q ++ c :: r)).scan =
      (Reader.mk file m (c :: r)).scan.map (us ++ ·) := by
  induction h generalizing q with
  | nil n cs =>
    obtain rfl : q = [] := by simpa using hcs
    rw [List.nil_append]
    cases (Reader.mk file n (c :: r)).scan <;> rfl
  | @token n m p w rest cs' x ts hm hx hs ih =>
    obtain ⟨q', rfl, -⟩ := hs.exists_append
    rw [← List.append_assoc, List.append_left_inj] at hcs
    subst hcs
    have hm' := hm.before_blank hx hc r
    rw [List.append_assoc, hm'.scan_eq, (hm'.emit_eq file n).1 x hx, ih rfl hcomment]
    cases (Reader.mk file m (c :: r)).scan <;> rfl
  | @skip n m p w rest cs' ts hm hp hs ih =>
    obtain ⟨q', rfl, -⟩ := hs.exists_append
    rw [← List.append_assoc, List.append_left_inj] at hcs
    subst hcs
    rw [List.append_assoc, ← ih rfl hcomment]
    rcases hp with rfl | rfl
    · have ha := hm.accepts
      cases ha with
      | blanks _ hw =>
        have htrivia : Trivia False (w ++ []) := .blanks hw .nil
        rw [List.append_nil] at htrivia
        exact Reader.scan_trivia file n htrivia _
    · obtain ⟨ds, rfl, hds, hrest⟩ := hm.end_of_comment
      cases q' with
      | nil => exact hcomment hrest n ds hds
      | cons d q' =>
        -- the comment ends before the place
        refine Reader.scan_comment file n hds (.inr ⟨q' ++ c :: r, ?_⟩)
        obtain hrest | ⟨es, hrest⟩ := hrest
        · cases hrest
        · cases hrest
          rfl

/-! ## The same text further on -/

/-- The place `k` bytes further on. -/
def Position.shift (k : Nat) (p : Position) : Position := .ofNat (p.offset.toNat + k) p.file

/-- The token `k` bytes further on. -/
def Token.shift (k : Nat) (t : Token) : Token :=
  { t with span := ⟨t.span.start.shift k, t.span.stop.shift k⟩ }

theorem Position.shift_ofNat (k n : Nat) (file : String) :
    (Position.ofNat n file).shift k = .ofNat (n + k) file := by
  simp only [shift, ofNat, mk.injEq, and_true]
  rw [UInt32.toNat_ofNat', UInt32.ofNat_eq_iff_mod_eq_toNat, UInt32.toNat_ofNat', Nat.mod_add_mod]

theorem Lexeme.shift_token (x : Lexeme) (file : String) (n w k : Nat) :
    (x.token file n w).shift k = x.token file (n + k) w := by
  simp only [token, Token.shift, Span.ofNat, Position.shift_ofNat, Nat.add_right_comm]

/-- **The tokens of a text go with it.** -/
theorem Segmented.shift {file : String} {n n' : Nat} {cs cs' : List Char} {ts : List Token}
    (h : Segmented file n cs ts n' cs') (k : Nat) :
    Segmented file (n + k) cs (ts.map (·.shift k)) (n' + k) cs' := by
  induction h with
  | nil n cs => exact .nil _ _
  | @token n n' p w rest cs' x ts hm hx _ ih =>
    rw [List.map_cons, Lexeme.shift_token]
    rw [Nat.add_right_comm] at ih
    exact .token hm hx ih
  | skip hm hp _ ih =>
    rw [Nat.add_right_comm] at ih
    exact .skip hm hp ih

theorem Token.shift_eof (n k : Nat) (file : String) :
    (eof (.ofNat n) file).shift k = eof (.ofNat (n + k)) file := by
  have h : Position.shift k ⟨.ofNat n, file⟩ = ⟨.ofNat (n + k), file⟩ :=
    Position.shift_ofNat k n file
  rw [eof, shift, h]
  rfl

theorem Segmented.scan_shift {file : String} {n m : Nat} {cs : List Char} {ts : List Token}
    (h : Segmented file n cs ts m []) (k : Nat) :
    (Reader.mk file (n + k) cs).scan =
      .ok ((ts ++ [Token.eof (.ofNat m) file]).map (·.shift k)) := by
  rw [(h.shift k).scan_eq, Reader.scan_eq, List.map_append, List.map_singleton, Token.shift_eof]
  rfl

end ExprScript
