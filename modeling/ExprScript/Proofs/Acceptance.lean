import ExprScript.Proofs.Passage

/-!
# Reading accepts the grammar

Every derivation is found by reading, whatever comes after it: an expression ends before a token
that joins nothing, and a branch without an alternative ends before a token other than `else`.
Operands are found with what is to be joined to them still open, since reading takes the left
operand first.

* `Follows`: an operand is found, and then what is joined to it.
* `Phrase.Found`: what is read of each phrase; **`Derives.found`**: completeness of reading.
* **`parse_accepts_iff`**: a program is accepted if and only if its tokens derive it.
-/

namespace ExprScript

namespace Goal.Finds

variable {c c₁ c' : Cursor} {a e : Expr}

/-! ## Rules for met goals -/

theorem expr {form : Opening} {bound : Power}
    (hf : Grammar.standard.opening? c.kind = some form) (ha : (opening form).Finds c a c₁)
    (hj : (joined a bound).Finds c₁ e c') : (Goal.expr bound).Finds c e c' := by
  obtain ⟨n, ha, hj⟩ := ha.both hj
  exact ⟨n + 1, gives_expr.2 ⟨form, a, c₁, hf, ha, hj⟩⟩

theorem stop {bound : Power} (h : ¬ bound < Grammar.standard.power c.kind) :
    (joined e bound).Finds c e c := ⟨1, gives_joined.2 (.inl ⟨h, rfl, rfl⟩)⟩

theorem join {left : Expr} {bound p : Power} {form : Joining}
    (hp : Grammar.standard.joining? c.kind = some (p, form)) (hb : bound < p)
    (ha : (joining form left p).Finds c a c₁) (hj : (joined a bound).Finds c₁ e c') :
    (joined left bound).Finds c e c' := by
  obtain ⟨n, ha, hj⟩ := ha.both hj
  exact ⟨n + 1, gives_joined.2 (.inr ⟨p, form, a, c₁, hp, hb, ha, hj⟩)⟩

theorem item (he : (Goal.expr .lowest).Finds c e c₁)
    (hs : Parse.separator c₁ = some (.ok (), c')) : (opening .item).Finds c e c' := by
  obtain ⟨n, he⟩ := he
  exact ⟨n + 1, gives_item.2 ⟨c₁, he, hs⟩⟩

theorem group (he : (Goal.expr .lowest).Finds c.advance e c₁) (hl : c.advance.kind ≠ .closeParen)
    (hr : c₁.kind = .closeParen) : (opening .group).Finds c e c₁.advance := by
  obtain ⟨n, he⟩ := he
  exact ⟨n + 1, gives_group.2 (.inr ⟨hl, c₁, he, hr, rfl⟩)⟩

end Goal.Finds

/-! ## Phrases -/

/-- The power of the operators of a level. -/
def Level.power : Level → Power
  | disjunction => .logicalOr
  | conjunction => .logicalAnd
  | relation => .relational
  | sum => .additive
  | product => .multiplicative

theorem Level.joining_of_tree? {l : Level} {k : Kind} {tree : Expr → Expr → Expr}
    (h : l.tree? k = some tree) :
    Grammar.standard.joining? k = some (l.power, .binary) ∧ binary? k = some tree ∧
      k ≠ .elseWord := by
  cases l <;> cases k <;> cases h <;> exact ⟨rfl, rfl, by simp⟩

/-- The tokens are read as `e`, and then what is joined to it, if the token after them and the
bound allow operators of this rank. -/
def Follows (rank : Nat) (u : List Token) (e : Expr) : Prop :=
  ∀ {c c' : Cursor} {bound : Power} {r : Expr} {d : Cursor}, c.Passes u c' →
    c'.kind ≠ .elseWord → (Grammar.standard.power c'.kind).rank ≤ rank → bound.rank < rank →
    (Goal.joined e bound).Finds c' r d → (Goal.expr bound).Finds c r d

/-- A goal that reads items one by one. -/
def Loops (loop : List Expr → Goal) : Prop :=
  ∀ {acc : List Expr} {c c₁ d : Cursor} {a r : Expr} {form : Opening},
    Grammar.standard.opening? c.kind = some form → (Goal.opening .item).Finds c a c₁ →
    (loop (a :: acc)).Finds c₁ r d → (loop acc).Finds c r d

/-- What is read where the tokens are the phrase. -/
def Phrase.Found (u : List Token) (e : Expr) : Phrase → Prop
  | .items => ∀ {es : List Expr}, e = .sequence es → ∀ {c c' d : Cursor} {r : Expr}
      {loop : List Expr → Goal} {acc : List Expr}, Loops loop → c.Passes u c' →
      c'.kind = .closeCurly ∨ c'.kind = .eof → (loop (es.reverse ++ acc)).Finds c' r d →
      (loop acc).Finds c r d
  | .expr => ∀ {c c' : Cursor}, c.Passes u c' → c'.kind ≠ .elseWord → c'.kind.isInfix = false →
      (Goal.expr .lowest).Finds c e c'
  | .level l => Follows l.power.rank u e
  | .unary | .primary => ∀ {c c' : Cursor}, c.Passes u c' → c'.kind ≠ .elseWord →
      ∃ form, Grammar.standard.opening? c.kind = some form ∧ (Goal.opening form).Finds c e c'
  | .block => ∀ {c c' : Cursor}, c.Passes u c' → (Goal.opening .block).Finds c e c'
  | .branch => ∀ {c c' : Cursor}, c.Passes u c' → c'.kind ≠ .elseWord →
      (Goal.opening .branch).Finds c e c'

theorem loops_block : Loops .block := by
  intro acc c c₁ d a r form hf ha hr
  obtain ⟨n, ha, hr⟩ := ha.both hr
  refine ⟨n + 1, Goal.gives_block.2 (.inr ⟨?_, Grammar.ne_eof_of_opening hf, a, c₁, ha, hr⟩)⟩
  intro hk
  rw [hk] at hf
  cases hf

theorem loops_program : Loops .program := by
  intro acc c c₁ d a r form hf ha hr
  obtain ⟨n, ha, hr⟩ := ha.both hr
  exact ⟨n + 1, Goal.gives_program.2 (.inr ⟨Grammar.ne_eof_of_opening hf, a, c₁, ha, hr⟩)⟩

namespace Phrase.Found

variable {u v w : List Token} {a b e : Expr} {l r t : Token}

theorem follows (h : Phrase.unary.Found u e) (rank : Nat) : Follows rank u e := by
  intro c c' bound r d hu hne _ _ hj
  obtain ⟨form, hf, ha⟩ := h hu hne
  exact .expr hf ha hj

theorem follows_tighter {l : Level} (h : l.tighter.Found u e) :
    Follows (l.power.rank + 1) u e := by
  cases l
  case product => exact follows h _
  all_goals exact h

/-- A looser rank asks more of the token after and of the bound. -/
theorem level_of_tighter {l : Level} (h : l.tighter.Found u e) : (Phrase.level l).Found u e := by
  intro c c' bound r d hu hne hk hb hj
  exact follows_tighter h hu hne (by omega) (by omega) hj

theorem expr_of_follows {rank : Nat} (hr : 0 < rank) (h : Follows rank u e) :
    Phrase.expr.Found u e := by
  intro c c' hu hne hi
  have hs := Grammar.not_lowest_lt_power.2 hi
  have hz : (Grammar.standard.power c'.kind).rank ≤ rank :=
    Nat.le_trans (Nat.le_of_not_lt hs) (Nat.zero_le _)
  exact h hu hne hz hr (.stop hs)

theorem binary {l : Level} {tree : Expr → Expr → Expr} (ha : (Phrase.level l).Found u a)
    (ht : l.tree? t.kind = some tree) (hb : l.tighter.Found v b) :
    (Phrase.level l).Found (u ++ t :: v) (tree a b) := by
  obtain ⟨hj, htree, hne⟩ := l.joining_of_tree? ht
  intro c c' bound r d hp hk hrank hbound hr
  obtain ⟨c₁, hu, htv⟩ := hp.of_append
  have hkt := htv.kind_of_cons
  -- The right operand is read above the operator's own power, so it stops at the token after it.
  have hright : (Goal.expr l.power).Finds c₁.advance b c' :=
    follows_tighter hb htv.of_cons.2 hk (by omega) (Nat.lt_succ_self _)
      (.stop (Nat.not_lt_of_le hrank))
  obtain ⟨n, hright⟩ := hright
  have hjoin : (Goal.joining .binary a l.power).Finds c₁ (tree a b) c' :=
    ⟨n + 1, Goal.gives_binary.2 ⟨tree, b, by rw [hkt, htree], hright, rfl⟩⟩
  have hpower : Grammar.standard.power c₁.kind = l.power := by
    rw [hkt, Grammar.power_of_joining hj]
  exact ha hu (by rwa [hkt]) (Nat.le_of_eq (congrArg Power.rank hpower)) hbound
    (.join (by rw [hkt, hj]) hbound hjoin hr)

theorem group (hl : l.kind = .openParen) (hr : r.kind = .closeParen) (h : Phrase.expr.Found u e)
    (hu : ∃ t v form, u = t :: v ∧ Grammar.standard.opening? t.kind = some form) :
    Phrase.primary.Found (l :: (u ++ [r])) e := by
  intro c c' hp _
  obtain ⟨hcl, hp'⟩ := hp.of_cons
  obtain ⟨c₁, hu₁, hr₁⟩ := hp'.of_append
  have hk : c₁.kind = .closeParen := by rw [hr₁.kind_of_cons, hr]
  have hopen : c.advance.kind ≠ .closeParen := by
    obtain ⟨t, v, form, rfl, hf⟩ := hu
    intro hclose
    rw [← hu₁.kind_of_cons, hclose] at hf
    cases hf
  rw [← hr₁.of_cons.2.eq_of_nil]
  refine ⟨.group, by rw [hp.kind_of_cons, hl]; rfl, .group ?_ hopen hk⟩
  exact h hu₁ (by rw [hk]; simp) (by rw [hk]; rfl)

theorem token (ht : Grammar.standard.opening? t.kind = some .primary) (he : t.expr? = some e) :
    Phrase.primary.Found [t] e := by
  intro c c' hp _
  refine ⟨.primary, by rw [hp.kind_of_cons, ht], 1, Goal.gives_primary.2 ⟨?_, ?_⟩⟩
  · rw [hp.of_cons.1, he]
  · exact hp.of_cons.2.eq_of_nil.symm

theorem target {x : String} (h : Target u x) : Phrase.primary.Found u (.var x) := by
  induction h with
  | name ht => exact token (by rw [ht]; rfl) (by rw [Token.expr?, ht])
  | group hl hr h ih =>
    exact group hl hr (expr_of_follows Nat.one_pos (follows ih 1)) h.exists_cons

theorem assign {x : String} (hx : Target u x) (ht : t.kind = .assignment)
    (h : Phrase.expr.Found v e) : Phrase.expr.Found (u ++ t :: v) (.assign x e) := by
  intro c c' hp hne hi
  obtain ⟨c₁, hu, htv⟩ := hp.of_append
  have hkt : c₁.kind = .assignment := by rw [htv.kind_of_cons, ht]
  obtain ⟨n, hv⟩ := h htv.of_cons.2 hne hi
  have hjoin : (Goal.joining .assignment (.var x) .assignment).Finds c₁ (.assign x e) c' :=
    ⟨n + 1, Goal.gives_assignment.2 ⟨x, e, rfl, hv, rfl⟩⟩
  obtain ⟨form, hf, hvar⟩ := target hx hu (by rw [hkt]; simp)
  refine .expr hf hvar (.join (by rw [hkt]; rfl) (by decide) hjoin (.stop ?_))
  exact Grammar.not_lowest_lt_power.2 hi

theorem signed (ht : Grammar.standard.opening? t.kind = some .signed) (hs : t.kind.Signs a e)
    (h : Phrase.unary.Found u a) : Phrase.unary.Found (t :: u) e := by
  intro c c' hp hne
  -- No operator binds tighter than a sign.
  have hstop : ¬ Power.unary < Grammar.standard.power c'.kind := by cases c'.kind <;> decide
  obtain ⟨form, hf, ha⟩ := h hp.of_cons.2 hne
  obtain ⟨n, ha⟩ := Goal.Finds.expr hf ha (.stop hstop)
  refine ⟨.signed, by rw [hp.kind_of_cons, ht], n + 1, Goal.gives_signed.2 ⟨a, ha, ?_⟩⟩
  rwa [hp.kind_of_cons]

theorem unit (hl : l.kind = .openParen) (hr : r.kind = .closeParen) :
    Phrase.primary.Found [l, r] (.literal .unit) := by
  intro c c' hp _
  have hp' := hp.of_cons.2
  refine ⟨.group, by rw [hp.kind_of_cons, hl]; rfl, 1, Goal.gives_group.2 (.inl ⟨?_, rfl, ?_⟩)⟩
  · rw [hp'.kind_of_cons, hr]
  · exact hp'.of_cons.2.eq_of_nil.symm

theorem print (ht : t.kind = .printWord) (hl : l.kind = .openParen) (hr : r.kind = .closeParen)
    (h : Phrase.expr.Found u e) : Phrase.primary.Found (t :: l :: (u ++ [r])) (.print e) := by
  intro c c' hp _
  have hp' := hp.of_cons.2
  obtain ⟨c₁, hu₁, hr₁⟩ := hp'.of_cons.2.of_append
  have hk : c₁.kind = .closeParen := by rw [hr₁.kind_of_cons, hr]
  obtain ⟨n, he⟩ := h hu₁ (by rw [hk]; simp) (by rw [hk]; rfl)
  refine ⟨.print, by rw [hp.kind_of_cons, ht]; rfl, n + 1,
    Goal.gives_print.2 ⟨?_, e, c₁, he, hk, rfl, ?_⟩⟩
  · rw [hp'.kind_of_cons, hl]
  · exact hr₁.of_cons.2.eq_of_nil.symm

/-- A condition ends before the brace of the block after it. -/
theorem condition {c c' : Cursor} (ha : Phrase.expr.Found u a) (hb : Phrase.block.Found v b)
    (hv : ∃ l w, v = l :: w ∧ l.kind = .openCurly) (hp : c.Passes (u ++ v) c') :
    ∃ c₁, (Goal.expr .lowest).Finds c a c₁ ∧ (Goal.opening .block).Finds c₁ b c' := by
  obtain ⟨c₁, hu, hv₁⟩ := hp.of_append
  obtain ⟨l, w, rfl, hl⟩ := hv
  have hk : c₁.kind = .openCurly := by rw [hv₁.kind_of_cons, hl]
  exact ⟨c₁, ha hu (by rw [hk]; simp) (by rw [hk]; rfl), hb hv₁⟩

theorem loop (ht : t.kind = .whileWord) (ha : Phrase.expr.Found u a)
    (hb : Phrase.block.Found v b) (hv : ∃ l w, v = l :: w ∧ l.kind = .openCurly) :
    Phrase.primary.Found (t :: (u ++ v)) (.loop a b) := by
  intro c c' hp _
  obtain ⟨c₁, ha, hb⟩ := condition ha hb hv hp.of_cons.2
  obtain ⟨n, ha, hb⟩ := ha.both hb
  exact ⟨.loop, by rw [hp.kind_of_cons, ht]; rfl, n + 1, Goal.gives_loop.2 ⟨a, b, c₁, ha, hb, rfl⟩⟩

theorem branch (ha : Phrase.expr.Found u a)
    (hb : Phrase.block.Found v b) (hv : ∃ l w, v = l :: w ∧ l.kind = .openCurly) :
    Phrase.branch.Found (t :: (u ++ v)) (.branch a b .unit) := by
  intro c c' hp hne
  obtain ⟨c₁, ha, hb⟩ := condition ha hb hv hp.of_cons.2
  obtain ⟨n, ha, hb⟩ := ha.both hb
  exact ⟨n + 1, Goal.gives_branch.2 ⟨a, b, c₁, c', ha, hb, .inl ⟨hne, rfl, rfl⟩⟩⟩

theorem branchElse {s : Token} {p : Phrase} (ha : Phrase.expr.Found u a)
    (hb : Phrase.block.Found v b) (hv : ∃ l w, v = l :: w ∧ l.kind = .openCurly)
    (hs : s.kind = .elseWord) (hq : p = .block ∨ p = .branch) (hd : Derives p w e)
    (ho : p.Found w e) : Phrase.branch.Found (t :: (u ++ (v ++ s :: w))) (.branch a b e) := by
  intro c c' hp hne
  have hp' := hp.of_cons.2
  rw [← List.append_assoc] at hp'
  obtain ⟨c₂, huv, hsw⟩ := hp'.of_append
  obtain ⟨c₁, ha, hb⟩ := condition ha hb hv huv
  have hk : c₂.kind = .elseWord := by rw [hsw.kind_of_cons, hs]
  have hw := hsw.of_cons.2
  have ho : (Goal.opening (if c₂.advance.kind = .ifWord then .branch else .block)).Finds
      c₂.advance e c' := by
    obtain rfl | rfl := hq
    · have hkw : c₂.advance.kind = .openCurly := by
        cases hd with
        | block hl => rw [hw.kind_of_cons, hl]
      rw [hkw]
      exact ho hw
    · have hkw : c₂.advance.kind = .ifWord := by
        cases hd with
        | branch ht | branchElse ht => rw [hw.kind_of_cons, ht]
      rw [hkw]
      exact ho hw hne
  obtain ⟨m, ha, hb⟩ := ha.both hb
  obtain ⟨n, ho⟩ := ho
  refine ⟨max m n + 1, Goal.gives_branch.2 ⟨a, b, c₁, c₂, ha.mono (Nat.le_max_left m n),
    hb.mono (Nat.le_max_left m n), .inr ⟨hk, e, rfl, ho.mono (Nat.le_max_right m n)⟩⟩⟩

theorem block {es : List Expr} (hl : l.kind = .openCurly) (hr : r.kind = .closeCurly)
    (h : Phrase.items.Found u (.sequence es)) :
    Phrase.block.Found (l :: (u ++ [r])) (.sequence es) := by
  intro c c' hp
  obtain ⟨c₁, hu₁, hr₁⟩ := hp.of_cons.2.of_append
  have hk : c₁.kind = .closeCurly := by rw [hr₁.kind_of_cons, hr]
  have hend : (Goal.block (es.reverse ++ [])).Finds c₁ (.sequence es) c' := by
    refine ⟨1, Goal.gives_block.2 (.inl ⟨hk, by simp, ?_⟩)⟩
    exact hr₁.of_cons.2.eq_of_nil.symm
  obtain ⟨n, hb⟩ := h rfl loops_block hu₁ (.inl hk) hend
  exact ⟨n + 1, Goal.gives_opening_block.2 ⟨by rw [hp.kind_of_cons, hl], hb⟩⟩

theorem noItems : Phrase.items.Found [] (.sequence []) := by
  intro es he c c' d r loop acc _ hp _ hend
  cases he
  rwa [hp.eq_of_nil]

theorem separated {es : List Expr} (h : Phrase.expr.Found u e) (hd : Derives .expr u e)
    (ht : t.kind = .semicolon) (hs : Phrase.items.Found v (.sequence es)) :
    Phrase.items.Found (u ++ t :: v) (.sequence (e :: es)) := by
  intro es' he c c' d r loop acc hloop hp hk hend
  cases he
  obtain ⟨c₁, hu, htv⟩ := hp.of_append
  have hk₁ : c₁.kind = .semicolon := by rw [htv.kind_of_cons, ht]
  obtain ⟨t', w, form, rfl, hf⟩ := hd.exists_cons (by simp)
  rw [← hu.kind_of_cons] at hf
  have hitem : (Goal.opening .item).Finds c e c₁.advance :=
    .item (h hu (by rw [hk₁]; simp) (by rw [hk₁]; rfl))
      (Parse.separator_ok_iff.2 (.inl ⟨hk₁, rfl⟩))
  refine hloop hf hitem (hs rfl hloop htv.of_cons.2 hk ?_)
  simpa using hend

/-- The separator is left out where the token after the item allows it. -/
theorem unseparated {es : List Expr} (h : Phrase.expr.Found u e) (hd : Derives .expr u e)
    (hs : Phrase.items.Found v (.sequence es))
    (hv : ∀ {c₁ c' : Cursor}, c₁.before.head? = u.getLast? → c₁.Passes v c' →
      c'.kind = .closeCurly ∨ c'.kind = .eof → c₁.kind ≠ .elseWord ∧ c₁.kind.isInfix = false ∧
        c₁.kind ≠ .semicolon ∧ (c₁.kind = .closeCurly ∨ c₁.kind = .eof ∨
          c₁.previous? = some .closeCurly)) :
    Phrase.items.Found (u ++ v) (.sequence (e :: es)) := by
  intro es' he c c' d r loop acc hloop hp hk hend
  cases he
  obtain ⟨c₁, hu, hv₁⟩ := hp.of_append
  obtain ⟨t', w, form, rfl, hf⟩ := hd.exists_cons (by simp)
  rw [← hu.kind_of_cons] at hf
  have hlast : c₁.before.head? = (t' :: w).getLast? := by
    rw [hu.before, List.head?_append, List.head?_reverse, List.getLast?_cons, Option.some_or]
  obtain ⟨hne, hi, hsemi, hsep⟩ := hv hlast hv₁ hk
  have hitem : (Goal.opening .item).Finds c e c₁ :=
    .item (h hu hne hi) (Parse.separator_ok_iff.2 (.inr ⟨hsemi, rfl, hsep⟩))
  refine hloop hf hitem (hs rfl hloop hv₁ hk ?_)
  simpa using hend

theorem lastItem (h : Phrase.expr.Found u e) (hd : Derives .expr u e) :
    Phrase.items.Found u (.sequence [e]) := by
  rw [← List.append_nil u]
  refine unseparated h hd noItems fun {c₁ c'} _ hp hk => ?_
  cases hp.eq_of_nil
  rcases hk with hk | hk <;> simp [hk, Kind.isInfix]

theorem closed {s : Token} {es : List Expr} (h : Phrase.expr.Found u e) (hd : Derives .expr u e)
    (hu : u.getLast? = some s) (hs : s.kind = .closeCurly) (ht : t.kind.isInfix = false)
    (hdv : Derives .items (t :: v) (.sequence es))
    (hv : Phrase.items.Found (t :: v) (.sequence es)) :
    Phrase.items.Found (u ++ t :: v) (.sequence (e :: es)) := by
  refine unseparated h hd hv fun {c₁ c'} hlast hp _ => ?_
  obtain ⟨-, ⟨⟩, -⟩ | ⟨t', w, form, htw, hf⟩ := hdv.nil_or_cons
  cases htw
  have hkt := hp.kind_of_cons
  have hprev : c₁.previous? = some .closeCurly := by
    rw [Cursor.previous?, hlast, hu, Option.map_some, hs]
  refine ⟨?_, by rw [hkt, ht], ?_, .inr (.inr hprev)⟩
  all_goals
    rw [hkt]
    intro hk
    rw [hk] at hf
    cases hf

end Phrase.Found

/-- **Every derivation is found by reading.** -/
theorem Derives.found {p : Phrase} {u : List Token} {e : Expr} (h : Derives p u e) :
    p.Found u e := by
  have curly {v : List Token} {b : Expr} (hb : Derives .block v b) :
      ∃ l w, v = l :: w ∧ l.kind = .openCurly := by
    cases hb with
    | block hl => exact ⟨_, _, rfl, hl⟩
  induction h with
  | noItems => exact Phrase.Found.noItems
  | separated h ht _ ih ihs => exact Phrase.Found.separated ih h ht ihs
  | lastItem h ih => exact Phrase.Found.lastItem ih h
  | closed h hu hs ht hv ih ihv => exact Phrase.Found.closed ih h hu hs ht hv ihv
  | assign hu ht _ ih => exact Phrase.Found.assign hu ht ih
  | operation _ ih => exact Phrase.Found.expr_of_follows (by decide) ih
  | binary _ ht _ iha ihb => exact Phrase.Found.binary iha ht ihb
  | operand _ ih => exact Phrase.Found.level_of_tighter ih
  | not ht _ ih => exact Phrase.Found.signed (by rw [ht]; rfl) (.inl ⟨ht, rfl⟩) ih
  | negativeInteger ht _ ih =>
    exact Phrase.Found.signed (by rw [ht]; rfl) (.inr ⟨ht, .inl ⟨_, rfl, rfl⟩⟩) ih
  | negativeFloat ht _ ih =>
    exact Phrase.Found.signed (by rw [ht]; rfl) (.inr ⟨ht, .inr ⟨_, rfl, rfl⟩⟩) ih
  | simple _ ih => exact ih
  | integer ht hp hi =>
    exact Phrase.Found.token (by rw [ht]; rfl)
      (by rw [Token.expr?, ht, numberValue?_integer hp hi]; rfl)
  | float ht hp hx =>
    exact Phrase.Found.token (by rw [ht]; rfl)
      (by rw [Token.expr?, ht, numberValue?_float hp hx]; rfl)
  | name ht | string ht | truth ht | falsity ht =>
    exact Phrase.Found.token (by rw [ht]; rfl) (by rw [Token.expr?, ht])
  | unit hl hr => exact Phrase.Found.unit hl hr
  | group hl hr h ih => exact Phrase.Found.group hl hr ih (h.exists_cons (by simp))
  | print ht hl hr _ ih => exact Phrase.Found.print ht hl hr ih
  | braces h ih =>
    intro c c' hp _
    obtain ⟨l, w, rfl, hl⟩ := curly h
    exact ⟨.block, by rw [hp.kind_of_cons, hl]; rfl, ih hp⟩
  | choice h ih =>
    intro c c' hp hne
    refine ⟨.branch, ?_, ih hp hne⟩
    cases h with
    | branch ht | branchElse ht => rw [hp.kind_of_cons, ht]; rfl
  | loop ht _ hb ihc ihb => exact Phrase.Found.loop ht ihc ihb (curly hb)
  | block hl hr h ih =>
    intro c c' hp
    cases h <;> exact Phrase.Found.block hl hr ih hp
  | branch _ _ hy ihc ihy => exact Phrase.Found.branch ihc ihy (curly hy)
  | branchElse _ _ hy hs ho hn ihc ihy ihn =>
    exact Phrase.Found.branchElse ihc ihy (curly hy) hs ho hn ihn

/-! ## Programs -/

theorem takeWhile_append_end (ts : List Token) {t : Token} (ht : t.kind = .eof) :
    (ts ++ [t]).takeWhile (·.kind ≠ .eof) = ts.takeWhile (·.kind ≠ .eof) := by
  induction ts with
  | nil => simp [ht]
  | cons s ts ih => rw [List.cons_append, List.takeWhile_cons, List.takeWhile_cons, ih]

theorem takeWhile_completed (ts : List Token) (file : String) :
    (completed ts file).takeWhile (·.kind ≠ .eof) = ts.takeWhile (·.kind ≠ .eof) := by
  unfold completed
  split
  · next h =>
    rw [List.getLast?_eq_none_iff.1 h]
    exact takeWhile_append_end [] rfl
  · split
    · rfl
    · exact takeWhile_append_end ts rfl

theorem exists_completed_eq (ts : List Token) (file : String) :
    ∃ v t, completed ts file = v ++ [t] ∧ t.kind = .eof := by
  unfold completed
  split
  · exact ⟨[], _, rfl, rfl⟩
  · next t h =>
    split
    · next hk =>
      obtain ⟨v, hv⟩ := List.getLast?_eq_some_iff.1 h
      exact ⟨v, t, hv, hk⟩
    · exact ⟨ts, _, rfl, rfl⟩

theorem exists_first_end (v : List Token) {t : Token} (ht : t.kind = .eof) :
    ∃ u s w, v ++ [t] = u ++ s :: w ∧ Endless u ∧ s.kind = .eof := by
  induction v with
  | nil => exact ⟨[], t, [], rfl, endless_nil, ht⟩
  | cons a v ih =>
    by_cases ha : a.kind = .eof
    · exact ⟨[], a, v ++ [t], rfl, endless_nil, ha⟩
    · obtain ⟨u, s, w, huw, hu, hs⟩ := ih
      exact ⟨a :: u, s, w, by rw [List.cons_append, huw, List.cons_append],
        endless_cons.2 ⟨ha, hu⟩, hs⟩

namespace Cursor

theorem rest_start (ts : List Token) (file : String) :
    (start ts file).current :: (start ts file).after = completed ts file := by
  unfold start
  split
  · next h => exact absurd h (completed_ne_nil ts file)
  · next h => exact h.symm

theorem before_start (ts : List Token) (file : String) : (start ts file).before = [] := by
  unfold start
  split <;> rfl

theorem ended_start (ts : List Token) (file : String) : (start ts file).Ended := by
  obtain ⟨v, t, h, ht⟩ := exists_completed_eq ts file
  exact ⟨v, t, by rw [rest_start, h], ht⟩

/-- What stands before a cursor on an end is what stands before the first end. -/
theorem Passes.eq_takeWhile {ts u : List Token} {file : String} {c' : Cursor}
    (h : (start ts file).Passes u c') (hu : Endless u) (hk : c'.kind = .eof) :
    u = ts.takeWhile (·.kind ≠ .eof) := by
  have hr := h.rest
  rw [rest_start] at hr
  rw [← takeWhile_completed ts file, hr, List.takeWhile_append_of_pos (by simpa [Endless] using hu),
    List.takeWhile_cons_of_neg (by simpa [kind] using hk), List.append_nil]

/-- The tokens before the first end are passed over to the end. -/
theorem exists_passes_takeWhile (ts : List Token) (file : String) :
    ∃ c', (start ts file).Passes (ts.takeWhile (·.kind ≠ .eof)) c' ∧ c'.kind = .eof := by
  obtain ⟨v, t, hv, ht⟩ := exists_completed_eq ts file
  obtain ⟨u, s, w, huw, hu, hs⟩ := exists_first_end v ht
  have hp : (start ts file).Passes u ⟨u.reverse ++ (start ts file).before, s, w⟩ :=
    ⟨by rw [rest_start, hv, huw], rfl⟩
  rw [← hp.eq_takeWhile hu hs]
  exact ⟨_, hp, hs⟩

end Cursor

theorem parse_ne_none (ts : List Token) (file : String) : parse ts file ≠ none := by
  have h : (Goal.program []).read .standard (Cursor.start ts file).budget (.start ts file) ≠ none :=
    Goal.ends _ (Cursor.ended_start ts file) trivial
      (by simp only [Goal.need, Cursor.budget]; omega)
  simpa [parse] using h

theorem derives_of_parse {ts : List Token} {file : String} {e : Expr}
    (h : parse ts file = some (.ok e)) :
    ∃ es, e = .program es ∧ Derives .items (ts.takeWhile (·.kind ≠ .eof)) (.sequence es) := by
  obtain ⟨⟨_, c'⟩, hr, ⟨⟩⟩ := Option.map_eq_some_iff.1 h
  have hg : (Goal.program []).Gives (Cursor.start ts file).budget (.start ts file) e c' := hr
  obtain ⟨u, es, hu, hk, hd, he⟩ := hg.spells (Cursor.ended_start ts file) trivial
  rw [← hu.eq_takeWhile hd.endless hk]
  exact ⟨es, he, hd⟩

theorem parse_of_derives {ts : List Token} {file : String} {es : List Expr}
    (h : Derives .items (ts.takeWhile (·.kind ≠ .eof)) (.sequence es)) :
    parse ts file = some (.ok (.program es)) := by
  obtain ⟨c', hp, hk⟩ := Cursor.exists_passes_takeWhile ts file
  have hend : (Goal.program (es.reverse ++ [])).Finds c' (.program es) c' :=
    ⟨1, Goal.gives_program.2 (.inl ⟨hk, by simp, rfl⟩)⟩
  obtain ⟨n, hn⟩ := h.found rfl loops_program hp (.inr hk) hend
  -- The budget gives some answer, and it is the one found.
  obtain ⟨r, hr⟩ := Option.ne_none_iff_exists'.1 (parse_ne_none ts file)
  obtain ⟨p, hp, rfl⟩ := Option.map_eq_some_iff.1 hr
  cases Goal.read_unique hn hp
  exact hr

/-- **Reading accepts exactly the grammar and builds exactly its trees**, from the tokens before the
first end. -/
theorem parse_accepts_iff (ts : List Token) (file : String) :
    (∃ r, parse ts file = some r) ∧
      (∀ e, parse ts file = some (.ok e) → ∃ es, e = .program es) ∧
        ∀ es, parse ts file = some (.ok (.program es)) ↔
          Derives .items (ts.takeWhile (·.kind ≠ .eof)) (.sequence es) := by
  refine ⟨Option.ne_none_iff_exists'.1 (parse_ne_none ts file), fun e h => ?_, fun es => ⟨?_, ?_⟩⟩
  · obtain ⟨es, he, -⟩ := derives_of_parse h
    exact ⟨es, he⟩
  · intro h
    obtain ⟨es', he, hd⟩ := derives_of_parse h
    cases he
    exact hd
  · exact parse_of_derives

end ExprScript
