import ExprScript.Proofs.Likeness
import ExprScript.Proofs.Progress

/-!
# Reading sees one token ahead

Reading looks at the token it stands on and at the kind of the token before. With the tables of the
language it moves on only from a token that is no end, so it is never kept back by the last token of
the list. Where it stops is therefore as far as it has seen: whatever comes after may be exchanged.

* `Cursor.Shares`: two cursors at one place, in lists with a beginning in common.
* `Parse.Sees`: an attempt passes over no end and sees nothing beyond the token it stops on.
* **`Goal.read_sees`**: reading is such an attempt, for all goals that may be begun where it stands.
* `StopsAt`: how reading a program ends, and where.
* **`parse_lookahead`**: what is beyond that place does not matter.
-/

namespace ExprScript

namespace Cursor

/-- The second cursor stands at the same place, in a list with the same tokens up to the place `m`,
that one included. -/
structure Shares (m : Nat) (c c' : Cursor) : Prop where
  index_eq : c'.index = c.index
  take_eq : c'.tokens.take (m + 1) = c.tokens.take (m + 1)

namespace Shares

variable {m n : Nat} {c c' : Cursor}

theorem mono (h : c.Shares m c') (hn : n ≤ m) : c.Shares n c' := by
  refine ⟨h.index_eq, ?_⟩
  have htake := congrArg (List.take (n + 1)) h.take_eq
  rwa [List.take_take, List.take_take, Nat.min_eq_left (by omega)] at htake

theorem getElem?_eq (h : c.Shares m c') {i : Nat} (hi : i ≤ m) : c'.tokens[i]? = c.tokens[i]? := by
  rw [← List.getElem?_take_of_lt (Nat.lt_succ_of_le hi), h.take_eq,
    List.getElem?_take_of_lt (Nat.lt_succ_of_le hi)]

theorem current_eq (h : c.Shares m c') (hi : c.index ≤ m) : c'.current = c.current := by
  have hget := h.getElem?_eq hi
  rw [getElem?_index, ← h.index_eq, getElem?_index] at hget
  exact Option.some.inj hget

theorem previous?_eq (h : c.Shares m c') (hi : c.index ≤ m) : c'.previous? = c.previous? := by
  rw [Cursor.previous?_eq, Cursor.previous?_eq, h.index_eq, h.getElem?_eq (by omega)]

theorem advance (h : c.Shares m c') (hlt : c.index < c.advance.index) (hm : c.advance.index ≤ m) :
    c.advance.Shares m c'.advance := by
  have hindex := c.index_advance
  have hnext : c.index + 1 < c.tokens.length := by omega
  have hget := h.getElem?_eq (show c.index + 1 ≤ m by omega)
  have hnext' : c.index + 1 < c'.tokens.length := by
    rw [List.getElem?_eq_getElem hnext] at hget
    exact (List.getElem?_eq_some_iff.1 hget).1
  refine ⟨?_, by rw [tokens_advance, tokens_advance, h.take_eq]⟩
  have hindex' := c'.index_advance
  have heq := h.index_eq
  omega

end Shares

theorem Reaches.index_mono {c c' : Cursor} (h : c.Reaches c') : c.index ≤ c'.index := by
  have hsum := h.index_add
  obtain ⟨u, hu, -⟩ := h
  have hlen := hu.length_after
  omega

end Cursor

namespace Parse

/-- From the cursor on, the attempt passes over no end, and it sees nothing beyond the token that it
stops on: in another list with the same tokens up to there it ends in the same way. -/
def Sees {α : Type} (x : Parse α) (c : Cursor) : Prop :=
  ∀ r d, x c = some (r, d) → c.Reaches d ∧
    ∀ c', c.Shares d.index c' →
      ∃ d', x c' = some (r, d') ∧ d'.index = d.index ∧ d'.tokens = c'.tokens

namespace Sees

variable {α β : Type} {c : Cursor}

/-- An attempt that does not look at the cursor sees nothing. -/
theorem stay {x : Parse α} {r : Except Fault α} (h : ∀ c, x c = some (r, c)) : x.Sees c := by
  intro r' d hd
  rw [h] at hd
  cases hd
  exact ⟨.refl c, fun c' hc' => ⟨c', h c', hc'.index_eq, rfl⟩⟩

theorem pure (a : α) : (Pure.pure a : Parse α).Sees c := stay (Attempt.pure_apply a)

theorem fail (t : Token) (cause : Cause) : (failAt t cause : Parse α).Sees c :=
  stay (failAt_apply t cause)

theorem look {f : Cursor → Parse α}
    (hf : ∀ c', c'.current = c.current → c'.previous? = c.previous? → f c' = f c)
    (h : (f c).Sees c) : Sees (Attempt.state >>= f) c := by
  intro r d hd
  rw [Attempt.bind_of_ok (Attempt.state_apply c)] at hd
  obtain ⟨hr, hs⟩ := h r d hd
  refine ⟨hr, fun c' hc' => ?_⟩
  have hle := hr.index_mono
  rw [Attempt.bind_of_ok (Attempt.state_apply c'),
    hf c' (hc'.current_eq hle) (hc'.previous?_eq hle)]
  exact hs c' hc'

theorem peek {f : Token → Parse α} (h : (f c.current).Sees c) : (Parse.peek >>= f).Sees c :=
  look (f := fun c => f c.current) (fun c' ht _ => by rw [ht]) h

theorem next {f : Token → Parse α} (hc : c.Ended) (hne : c.kind ≠ .eof)
    (h : (f c.current).Sees c.advance) : (Parse.next >>= f).Sees c := by
  intro r d hd
  rw [next_bind_apply] at hd
  obtain ⟨hr, hs⟩ := h r d hd
  obtain ⟨hmove, hlen⟩ := Cursor.Reaches.next hc hne
  have hsum := hmove.index_add
  have hle := hr.index_mono
  refine ⟨hmove.trans hr, fun c' hc' => ?_⟩
  obtain ⟨d', hd', hindex, htokens⟩ := hs _ (hc'.advance (by omega) hle)
  refine ⟨d', ?_, hindex, htokens.trans c'.tokens_advance⟩
  rw [next_bind_apply, hc'.current_eq (by omega)]
  exact hd'

theorem bind {x : Parse α} {f : α → Parse β} (hx : x.Sees c)
    (hf : ∀ a d, c.Reaches d → (f a).Sees d) : (x >>= f).Sees c := by
  intro r d hd
  rcases Attempt.bind_eq_some_iff.1 hd with ⟨e, t, he, ht⟩ | ⟨a, t, ha, ht⟩
  · cases ht
    obtain ⟨hr, hs⟩ := hx _ _ he
    refine ⟨hr, fun c' hc' => ?_⟩
    obtain ⟨d', hd', hindex, htokens⟩ := hs c' hc'
    exact ⟨d', Attempt.bind_of_error hd' f, hindex, htokens⟩
  · obtain ⟨hr, hs⟩ := hx _ _ ha
    obtain ⟨hr', hs'⟩ := hf a t hr r d ht
    refine ⟨hr.trans hr', fun c' hc' => ?_⟩
    obtain ⟨t', ht', hindex, htokens⟩ := hs c' (hc'.mono hr'.index_mono)
    -- the two lists are still those that the attempt began with
    have hshares : t.Shares d.index t' :=
      ⟨hindex, by rw [htokens, hc'.take_eq, hr.tokens_eq]⟩
    obtain ⟨d', hd', hindex', htokens'⟩ := hs' t' hshares
    refine ⟨d', ?_, hindex', htokens'.trans htokens⟩
    rw [Attempt.bind_of_ok ht', hd']

theorem expect {kind : Kind} {f : Token → Parse α} (hc : c.Ended) (hk : kind ≠ .eof)
    (h : c.kind = kind → (f c.current).Sees c.advance) : (Parse.expect kind >>= f).Sees c := by
  rw [expect_bind]
  refine peek ?_
  split
  · next heq => exact next hc (fun he => hk (heq.symm.trans he)) (h heq)
  · exact fail _ _

theorem separator (hc : c.Ended) : Parse.separator.Sees c := by
  refine look (fun c' ht hp => by simp only [Cursor.kind, ht, hp]) ?_
  by_cases hs : c.kind = .semicolon
  · rw [hs]
    exact next hc (by rw [hs]; simp) (pure ())
  · split
    · next heq => exact absurd heq hs
    · exact pure ()
    · exact pure ()
    · split
      · exact pure ()
      · exact fail _ _

theorem primary (hc : c.Ended) : Parse.primary.Sees c := by
  refine peek ?_
  by_cases he : c.kind = .eof
  · rw [show c.current.kind = .eof from he]
    exact fail _ _
  · split
    case' h_6 => exact fail _ _
    all_goals
      refine next hc he ?_
      cases c.current.expr? with
      | none => exact fail _ _
      | some e => exact pure e

theorem signed (t : Token) (e : Expr) : (Parse.signed t e).Sees c := by
  unfold Parse.signed
  split
  · exact pure _
  · split
    · exact pure _
    · exact pure _
    · exact fail _ _
  · exact fail _ _

end Sees

end Parse

/-! ## Goals -/

namespace Goal

/-- The goal may be begun here: a form stands on a token of its own. -/
def Enters (c : Cursor) : Goal → Prop
  | opening form => form = .block ∨ form = .item ∨ Grammar.standard.opening? c.kind = some form
  | joining form _ p => Grammar.standard.joining? c.kind = some (p, form)
  | _ => True

theorem ne_eof_of_enters {form : Opening} {c : Cursor} (h : (opening form).Enters c)
    (hb : form ≠ .block) (hi : form ≠ .item) : c.kind ≠ .eof :=
  Grammar.ne_eof_of_opening ((h.resolve_left hb).resolve_left hi)

/-- Within the budget, goals that may be begun where reading stands see nothing beyond the token
that it stops on. -/
def SeesWithin (n : Nat) : Prop :=
  ∀ {goal : Goal} {c : Cursor}, c.Ended → goal.Enters c → (goal.read .standard n).Sees c

namespace SeesWithin

variable {n : Nat} {c : Cursor}

theorem opening (ih : SeesWithin n) {form : Opening} (hc : c.Ended)
    (hg : (opening form).Enters c) : ((opening form).read .standard (n + 1)).Sees c := by
  have expr {c : Cursor} (hc : c.Ended) (bound : Power) :
      ((Goal.expr bound).read .standard n).Sees c := ih hc trivial
  have block {c : Cursor} (hc : c.Ended) : ((Goal.opening .block).read .standard n).Sees c :=
    ih hc (.inl rfl)
  have hne := ne_eof_of_enters hg
  have hnext (hne : c.kind ≠ .eof) : c.advance.Ended := hc.advance hne
  cases form <;> simp only [read]
  case primary => exact .primary hc
  case signed =>
    have hne := hne (by simp) (by simp)
    exact .next hc hne (.bind (expr (hnext hne) .unary) fun e d _ => .signed _ e)
  case group =>
    have hne := hne (by simp) (by simp)
    refine .next hc hne (.peek ?_)
    split
    · next hk =>
      exact .next (hnext hne) (by rw [Cursor.kind, hk]; simp) (.pure _)
    · exact .bind (expr (hnext hne) .lowest) fun e d hr =>
        .expect (hr.ended (hnext hne)) (by simp) fun _ => .pure e
  case print =>
    have hne := hne (by simp) (by simp)
    refine .next hc hne (.expect (hnext hne) (by simp) fun hk => ?_)
    have hc₂ : c.advance.advance.Ended := (hnext hne).advance (by rw [hk]; simp)
    exact .bind (expr hc₂ .lowest) fun e d hr =>
      .expect (hr.ended hc₂) (by simp) fun _ => .pure _
  case block =>
    exact .expect hc (by simp) fun hk => ih (hnext (by rw [hk]; simp)) trivial
  case branch =>
    have hne := hne (by simp) (by simp)
    refine .next hc hne (.bind (expr (hnext hne) .lowest) fun a d hr => ?_)
    have hd := hr.ended (hnext hne)
    refine .bind (block hd) fun y d' hr' => .peek ?_
    have hd' := hr'.ended hd
    split
    · next hk =>
      have hne' : d'.kind ≠ .eof := by rw [Cursor.kind, hk]; simp
      refine .next hd' hne' (.peek (.bind (ih (hd'.advance hne') ?_) fun _ _ _ => .pure _))
      -- after the word there is another branch, which stands on a token of its own, or a block
      split
      · next hi => exact .inr (.inr (by rw [Cursor.kind, hi]; rfl))
      · exact .inl rfl
    · exact .pure _
  case loop =>
    have hne := hne (by simp) (by simp)
    refine .next hc hne (.bind (expr (hnext hne) .lowest) fun a d hr => ?_)
    exact .bind (block (hr.ended (hnext hne))) fun _ _ _ => .pure _
  case item =>
    refine .bind (expr hc .lowest) fun e d hr => ?_
    exact .bind (.separator (hr.ended hc)) fun _ _ _ => .pure e

theorem joining (ih : SeesWithin n) {form : Joining} {left : Expr} {p : Power} (hc : c.Ended)
    (hg : (joining form left p).Enters c) :
    ((joining form left p).read .standard (n + 1)).Sees c := by
  have hne : c.kind ≠ .eof := Grammar.ne_eof_of_joining hg
  have expr (bound : Power) : ((Goal.expr bound).read .standard n).Sees c.advance :=
    ih (hc.advance hne) trivial
  cases form <;> simp only [read]
  case binary =>
    refine .next hc hne (.bind (expr p) fun right d _ => ?_)
    cases binary? c.current.kind with
    | none => exact .fail _ _
    | some tree => exact .pure _
  case assignment =>
    refine .next hc hne ?_
    split
    · exact .bind (expr .lowest) fun _ _ _ => .pure _
    · exact .fail _ _

theorem items (ih : SeesWithin n) (hc : c.Ended) {loop : Expr → Goal}
    (hl : ∀ a d, (loop a).Enters d) :
    Parse.Sees ((Goal.opening .item).read .standard n >>= fun a => (loop a).read .standard n) c :=
  .bind (ih hc (.inr (.inl rfl))) fun a _ hr => ih (hr.ended hc) (hl a _)

end SeesWithin

/-- **Reading sees nothing beyond the token that it stops on.** -/
theorem read_sees (n : Nat) : SeesWithin n := by
  induction n with
  | zero => rintro goal c - - r d ⟨⟩
  | succ n ih =>
    intro goal c hc hg
    replace ih : SeesWithin n := ih
    cases goal with
    | opening form => exact ih.opening hc hg
    | joining form left power => exact ih.joining hc hg
    | expr bound =>
      simp only [read]
      refine .peek ?_
      cases hf : Grammar.standard.opening? c.current.kind with
      | none => exact .fail _ _
      | some form => exact .bind (ih hc (.inr (.inr hf))) fun a d hr => ih (hr.ended hc) trivial
    | joined left bound =>
      simp only [read]
      refine .peek ?_
      cases hj : Grammar.standard.joining? c.current.kind with
      | none => exact .pure left
      | some j =>
        dsimp only
        split
        · exact .bind (ih hc hj) fun a d hr => ih (hr.ended hc) trivial
        · exact .pure left
    | block items =>
      simp only [read]
      refine .peek ?_
      split
      · next hk => exact .next hc (by rw [Cursor.kind, hk]; simp) (.pure _)
      · split
        · exact .fail _ _
        · exact ih.items hc fun _ _ => trivial
    | program items =>
      simp only [read]
      refine .peek ?_
      split
      · exact .pure _
      · exact ih.items hc fun _ _ => trivial

end Goal

/-! ## Programs -/

theorem prefix_completed (ts : List Token) (file : String) : ts <+: completed ts file := by
  unfold completed
  split
  · next h =>
    rw [List.getLast?_eq_none_iff.1 h]
    exact List.nil_prefix
  · split
    · exact List.prefix_rfl
    · exact List.prefix_append _ _

theorem take_completed_append (u v : List Token) (file : String) {n : Nat} (hn : n ≤ u.length) :
    (completed (u ++ v) file).take n = u.take n := by
  obtain ⟨w, hw⟩ := prefix_completed (u ++ v) file
  rw [← hw, List.append_assoc, List.take_append_of_le_length hn]

/-- Reading the program ends with this answer, and the cursor stops at this place. -/
def StopsAt (ts : List Token) (file : String) (r : Except Fault Expr) (k : Nat) : Prop :=
  ∃ c, (Goal.program []).read .standard (Cursor.start ts file).budget (.start ts file) =
    some (r, c) ∧ c.index = k

theorem sees_start (ts : List Token) (file : String) (n : Nat) :
    ((Goal.program []).read .standard n).Sees (.start ts file) :=
  Goal.read_sees n (Cursor.ended_start ts file) trivial

theorem exists_stopsAt (ts : List Token) (file : String) : ∃ r k, StopsAt ts file r k := by
  obtain ⟨r, hr⟩ := Option.ne_none_iff_exists'.1 (parse_ne_none ts file)
  obtain ⟨⟨r, c⟩, hc, -⟩ := Option.map_eq_some_iff.1 hr
  exact ⟨r, c.index, c, hc, rfl⟩

namespace StopsAt

variable {ts ts' : List Token} {file file' : String} {r : Except Fault Expr} {k : Nat}

theorem parse_eq (h : StopsAt ts file r k) : parse ts file = some r := by
  obtain ⟨c, hc, -⟩ := h
  rw [parse, hc]
  rfl

theorem le_first_end (h : StopsAt ts file r k) : k ≤ (ts.takeWhile (·.kind ≠ .eof)).length := by
  obtain ⟨c, hc, rfl⟩ := h
  exact (sees_start ts file _ r c hc).1.index_le

theorem eq_first_end {e : Expr} (h : StopsAt ts file (.ok e) k) :
    k = (ts.takeWhile (·.kind ≠ .eof)).length := by
  obtain ⟨c, hc, rfl⟩ := h
  have hgives : (Goal.program []).Gives (Cursor.start ts file).budget (.start ts file) e c := hc
  obtain ⟨u, es, hu, hk, hd, -⟩ := hgives.spells (Cursor.ended_start ts file) trivial
  rw [← hu.eq_takeWhile hd.endless hk, Cursor.index, hu.before, Cursor.before_start,
    List.append_nil, List.length_reverse]

/-- **Tokens beyond the place where reading stops do not matter.** -/
theorem of_take_eq (h : StopsAt ts file r k)
    (htake : (completed ts' file').take (k + 1) = (completed ts file).take (k + 1)) :
    StopsAt ts' file' r k := by
  obtain ⟨c, hc, rfl⟩ := h
  have hshares : (Cursor.start ts file).Shares c.index (.start ts' file') := by
    refine ⟨?_, by rw [Cursor.tokens_start, Cursor.tokens_start, htake]⟩
    rw [Cursor.index, Cursor.index, Cursor.before_start, Cursor.before_start]
  obtain ⟨c', hc', hindex, -⟩ := (sees_start ts file _ r c hc).2 _ hshares
  -- the budget goes by the length of the list, but the answer does not go by the budget
  obtain ⟨r', k', d, hd, rfl⟩ := exists_stopsAt ts' file'
  cases Goal.read_unique hc' hd
  exact ⟨c', hd, hindex⟩

end StopsAt

/-- **Reading sees one token ahead.** It stops not beyond the first end, and lists that agree up to
where it stops are read alike. -/
theorem parse_lookahead (ts : List Token) (file : String) :
    ∃ r k, StopsAt ts file r k ∧ parse ts file = some r ∧
      k ≤ (ts.takeWhile (·.kind ≠ .eof)).length ∧
      (∀ e, r = .ok e → k = (ts.takeWhile (·.kind ≠ .eof)).length) ∧
      (∀ ts' file', (completed ts' file').take (k + 1) = (completed ts file).take (k + 1) →
        parse ts' file' = some r ∧ StopsAt ts' file' r k) ∧
      ∀ u e v v' file', completed ts file = u ++ e :: v → Endless u → e.kind = .eof →
        parse (u ++ e :: v') file' = some r := by
  obtain ⟨r, k, h⟩ := exists_stopsAt ts file
  refine ⟨r, k, h, h.parse_eq, h.le_first_end, ?_, ?_, ?_⟩
  · rintro e rfl
    exact h.eq_first_end
  · intro ts' file' htake
    have h' := h.of_take_eq htake
    exact ⟨h'.parse_eq, h'⟩
  · intro u e v v' file' hts hu he
    have hk : k ≤ u.length := by
      have hle := h.le_first_end
      rwa [← takeWhile_completed ts file, hts,
        List.takeWhile_append_of_pos (by simpa [Endless] using hu),
        List.takeWhile_cons_of_neg (by simpa using he), List.append_nil] at hle
    have hlen : k + 1 ≤ (u ++ [e]).length := by simpa using hk
    have htake := take_completed_append (u ++ [e]) v' file' hlen
    refine (h.of_take_eq ?_).parse_eq
    rw [List.append_cons, htake, hts, List.append_cons u e v, List.take_append_of_le_length hlen]

/-- Of two names in a row the second is the fault, and nothing after it helps. -/
theorem parse_lookahead_two_names :
    let x : Token := ⟨.identifier, "x", .ofNat 0 1 "shell"⟩
    let y : Token := ⟨.identifier, "y", .ofNat 2 3 "shell"⟩
    let fault : Fault := .located (.unexpected "y") (.ofNat 2 "shell")
    StopsAt [x, y] "shell" (.error fault) 1 ∧
      ∀ rest, parse (x :: y :: rest) "shell" = some (.error fault) := by
  intro x y fault
  have hstop : StopsAt [x, y] "shell" (.error fault) 1 :=
    ⟨⟨[x], y, [.eof 3 "shell"]⟩, rfl, rfl⟩
  refine ⟨hstop, fun rest => ?_⟩
  obtain ⟨r, k, ⟨c, hc, rfl⟩, -, -, -, hsame, -⟩ := parse_lookahead [x, y] "shell"
  obtain ⟨d, hd, hindex⟩ := hstop
  cases Goal.read_unique hc hd
  refine (hsame (x :: y :: rest) "shell" ?_).1
  rw [hindex]
  exact (take_completed_append [x, y] rest "shell" (Nat.le_refl 2)).trans rfl

end ExprScript
