import ExprScript.Proofs.Derivation
import ExprScript.Proofs.Reading

/-!
# What a reading passes over

A goal that is met passes over tokens which derive its tree. The powers of the tables turn into the
levels of the grammar: reading above a bound gives a phrase of the next rank, and the token it stops
at joins nothing above the bound.

* `Cursor.Passes`: the tokens between two cursors; `Cursor.Ended`: an end token is still to come.
* `Phrase.ofRank`: the phrase that a power stands for; `Derives.weaken`.
* `Goal.Admits`, `Goal.Spells`: what holds before and after a goal is met.
* **`Goal.Gives.spells`**: soundness of reading.
* **`Goal.ends`**: a budget that suffices.
-/

namespace ExprScript

/-! ## Cursors -/

namespace Cursor

/-- From the first cursor to the second the tokens are passed over. -/
structure Passes (c : Cursor) (u : List Token) (c' : Cursor) : Prop where
  rest : c.current :: c.after = u ++ c'.current :: c'.after
  before : c'.before = u.reverse ++ c.before

/-- The last token is an end. -/
def Ended (c : Cursor) : Prop := ∃ v t, c.current :: c.after = v ++ [t] ∧ t.kind = .eof

namespace Passes

variable {c c₁ c' : Cursor} {t : Token} {u v : List Token}

theorem refl (c : Cursor) : c.Passes [] c := ⟨rfl, rfl⟩

theorem trans (h₁ : c.Passes u c₁) (h₂ : c₁.Passes v c') : c.Passes (u ++ v) c' := by
  refine ⟨?_, ?_⟩
  · rw [h₁.rest, h₂.rest, List.append_assoc]
  · rw [h₂.before, h₁.before, List.reverse_append, List.append_assoc]

theorem unique (h₁ : c.Passes u c₁) (h₂ : c.Passes u c') : c₁ = c' := by
  have hr := List.append_cancel_left (h₁.rest.symm.trans h₂.rest)
  have hb := h₁.before.trans h₂.before.symm
  cases c₁
  cases c'
  simp_all

theorem of_append (h : c.Passes (u ++ v) c') : ∃ c₁, c.Passes u c₁ ∧ c₁.Passes v c' := by
  have hr : c.current :: c.after = u ++ (v ++ c'.current :: c'.after) := by
    rw [h.rest, List.append_assoc]
  have hb : c'.before = v.reverse ++ (u.reverse ++ c.before) := by
    rw [h.before, List.reverse_append, List.append_assoc]
  obtain ⟨t, w, hw⟩ : ∃ t w, v ++ c'.current :: c'.after = t :: w := by cases v <;> simp
  exact ⟨⟨u.reverse ++ c.before, t, w⟩, ⟨by rw [hr, hw], rfl⟩, ⟨hw.symm, hb⟩⟩

theorem of_cons (h : c.Passes (t :: u) c') : c.current = t ∧ c.advance.Passes u c' := by
  have hr : c.current :: c.after = t :: (u ++ c'.current :: c'.after) := h.rest
  obtain ⟨ht, ha⟩ := List.cons.inj hr
  obtain ⟨s, w, hw⟩ : ∃ s w, c.after = s :: w := by rw [ha]; cases u <;> simp
  have hc : c.advance = ⟨c.current :: c.before, s, w⟩ := by simp [advance, hw]
  refine ⟨ht, ?_, ?_⟩
  · rw [hc, ← ha, hw]
  · rw [hc, h.before, ht, List.reverse_cons, List.append_assoc, List.singleton_append]

theorem kind_of_cons (h : c.Passes (t :: u) c') : c.kind = t.kind := by rw [kind, h.of_cons.1]

theorem eq_of_nil (h : c.Passes [] c') : c = c' := (refl c).unique h

theorem length_after (h : c.Passes u c') : c.after.length = u.length + c'.after.length := by
  have := congrArg List.length h.rest
  simp only [List.length_cons, List.length_append] at this
  omega

theorem ended (h : c.Passes u c') (hc : c.Ended) : c'.Ended := by
  obtain ⟨v, t, hv, ht⟩ := hc
  rw [h.rest, List.append_eq_append_iff] at hv
  obtain ⟨w, -, hw⟩ | ⟨w, -, hw⟩ := hv
  · exact ⟨w, t, hw, ht⟩
  · cases w with
    | nil => exact ⟨[], t, hw.symm, ht⟩
    | cons _ _ => simp at hw

end Passes

theorem Ended.passes {c : Cursor} (hc : c.Ended) (h : c.kind ≠ .eof) :
    c.Passes [c.current] c.advance := by
  obtain ⟨v, t, hv, ht⟩ := hc
  obtain ⟨s, w, hw⟩ : ∃ s w, c.after = s :: w := by
    cases v with
    | nil =>
      obtain ⟨rfl, -⟩ := List.cons.inj hv
      exact absurd ht h
    | cons _ v =>
      rw [(List.cons.inj hv).2]
      cases v <;> simp
  have hc : c.advance = ⟨c.current :: c.before, s, w⟩ := by simp [advance, hw]
  rw [hc]
  exact ⟨by rw [hw]; rfl, rfl⟩

theorem Ended.advance {c : Cursor} (hc : c.Ended) (h : c.kind ≠ .eof) : c.advance.Ended :=
  (hc.passes h).ended hc

theorem Ended.length_advance {c : Cursor} (hc : c.Ended) (h : c.kind ≠ .eof) :
    c.advance.after.length < c.after.length := by
  have hlen := (hc.passes h).length_after
  rw [List.length_singleton] at hlen
  omega

end Cursor

/-! ## Powers and levels -/

/-- The phrase whose operators all have at least this rank. -/
def Phrase.ofRank : Nat → Phrase
  | 0 | 1 => .expr
  | 2 => .level .disjunction
  | 3 => .level .conjunction
  | 4 => .level .relation
  | 5 => .level .sum
  | 6 => .level .product
  | _ => .unary

theorem Derives.weaken_succ {i : Nat} {u : List Token} {e : Expr}
    (h : Derives (.ofRank (i + 1)) u e) : Derives (.ofRank i) u e := by
  match i, h with
  | 0, h => exact h
  | 1, h => exact .operation h
  | 2, h | 3, h | 4, h | 5, h | 6, h => exact .operand h
  | _ + 7, h => exact h

/-- **A phrase of a tighter rank is one of a looser rank.** -/
theorem Derives.weaken {i j : Nat} {u : List Token} {e : Expr} (hij : i ≤ j)
    (h : Derives (.ofRank j) u e) : Derives (.ofRank i) u e := by
  induction hij with
  | refl => exact h
  | step _ ih => exact ih h.weaken_succ

theorem Phrase.ofRank_ne_items (r : Nat) : ofRank r ≠ .items := by
  unfold ofRank
  split <;> simp

theorem Power.rank_le (p : Power) : p.rank ≤ 8 := by cases p <;> decide

namespace Grammar

/-- A joining operator stands at the level of its power, and its right operand one level up. -/
theorem level_of_joining {k : Kind} {p : Power} (h : standard.joining? k = some (p, .binary)) :
    ∃ l tree, Phrase.ofRank p.rank = .level l ∧ Phrase.ofRank (p.rank + 1) = l.tighter ∧
      l.tree? k = some tree ∧ binary? k = some tree := by
  cases k <;> cases h
  case or => exact ⟨.disjunction, _, rfl, rfl, rfl, rfl⟩
  case and => exact ⟨.conjunction, _, rfl, rfl, rfl, rfl⟩
  case plus | dash => exact ⟨.sum, _, rfl, rfl, rfl, rfl⟩
  case star | slash => exact ⟨.product, _, rfl, rfl, rfl, rfl⟩
  all_goals exact ⟨.relation, _, rfl, rfl, rfl, rfl⟩

theorem eq_of_joining_assignment {k : Kind} {p : Power}
    (h : standard.joining? k = some (p, .assignment)) : k = .assignment ∧ p = .assignment := by
  cases k <;> cases h
  exact ⟨rfl, rfl⟩

theorem ne_eof_of_joining {k : Kind} {j : Power × Joining} (h : standard.joining? k = some j) :
    k ≠ .eof := by rintro rfl; cases h

theorem ne_eof_of_opening {k : Kind} {form : Opening} (h : standard.opening? k = some form) :
    k ≠ .eof := by rintro rfl; cases h

theorem opening_ne_item {k : Kind} {form : Opening} (h : standard.opening? k = some form) :
    form ≠ .item := by
  rintro rfl
  cases k <;> cases h

theorem power_of_joining {k : Kind} {p : Power} {form : Joining}
    (h : standard.joining? k = some (p, form)) : standard.power k = p := by rw [power, h]

theorem not_lowest_lt_power {k : Kind} :
    ¬ .lowest < standard.power k ↔ k.isInfix = false := by cases k <;> decide

/-- The kind of token that begins a form, for the forms that one kind alone begins. -/
theorem kind_of_opening {k : Kind} {form : Opening} (h : standard.opening? k = some form) :
    match form with
    | .group => k = .openParen
    | .print => k = .printWord
    | .block => k = .openCurly
    | .branch => k = .ifWord
    | .loop => k = .whileWord
    | _ => True := by
  cases k <;> cases h <;> trivial

end Grammar

/-! ## Items -/

/-- The tokens are an item and its separator, which may be left out before a token of the kind
`next`. -/
def Item (u : List Token) (e : Expr) (next : Kind) : Prop :=
  (∃ v t, u = v ++ [t] ∧ t.kind = .semicolon ∧ Derives .expr v e) ∨
    Derives .expr u e ∧ (next = .closeCurly ∨ next = .eof ∨
      next.isInfix = false ∧ ∃ s, u.getLast? = some s ∧ s.kind = .closeCurly)

theorem Item.ne_nil {u : List Token} {e : Expr} {next : Kind} (h : Item u e next) : u ≠ [] := by
  obtain ⟨v, t, rfl, -⟩ | ⟨h, -⟩ := h
  · simp
  · obtain ⟨t, v, -, rfl, -⟩ := h.exists_cons (by simp)
    simp

/-- **An item before items makes items**, if `next` is the kind of the token after it. -/
theorem Item.derives_cons {u v : List Token} {e : Expr} {es : List Expr} {next : Kind}
    (hu : Item u e next) (hv : Derives .items v (.sequence es))
    (hn : ∀ t w, v = t :: w → t.kind = next) :
    Derives .items (u ++ v) (.sequence (e :: es)) := by
  obtain ⟨u', t, rfl, ht, hu⟩ | ⟨hu, hnext⟩ := hu
  · rw [List.append_assoc]
    exact .separated hu ht hv
  obtain ⟨-, rfl, hes⟩ | ⟨t, w, form, rfl, hf⟩ := hv.nil_or_cons
  · cases hes
    rw [List.append_nil]
    exact .lastItem hu
  · -- The next token opens a form, so it neither closes a block nor ends the program.
    cases hn t w rfl
    obtain hk | hk | ⟨ht, s, hs, hk⟩ := hnext
    · rw [hk] at hf
      cases hf
    · rw [hk] at hf
      cases hf
    · exact .closed hu hs hk ht hv

/-! ## Soundness of reading -/

/-- The phrase that a form reads, items apart. -/
def Opening.phrase : Opening → Phrase
  | .block => .block
  | .branch => .branch
  | _ => .unary

theorem Derives.unary_of_opening {form : Opening} {u : List Token} {e : Expr}
    (h : Derives form.phrase u e) : Derives .unary u e := by
  cases form
  case block => exact .simple (.braces h)
  case branch => exact .simple (.choice h)
  all_goals exact h

theorem Derives.of_expr? {t : Token} {e : Expr} (h : t.expr? = some e) :
    Derives .primary [t] e := by
  unfold Token.expr? at h
  split at h
  · next hk =>
    obtain ⟨v, hv, rfl⟩ := Option.map_eq_some_iff.1 h
    exact .number hk hv
  · next hk => cases h; exact .name hk
  · next hk => cases h; exact .string hk
  · next hk => cases h; exact .truth hk
  · next hk => cases h; exact .falsity hk
  · cases h

theorem Derives.of_signs {t : Token} {u : List Token} {a e : Expr} (h : t.kind.Signs a e)
    (ha : Derives .unary u a) : Derives .unary (t :: u) e := by
  obtain ⟨hk, rfl⟩ | ⟨hk, ⟨i, rfl, rfl⟩ | ⟨x, rfl, rfl⟩⟩ := h
  · exact .not hk ha
  · exact .negativeInteger hk ha
  · exact .negativeFloat hk ha

namespace Goal

/-- The goal may be read here. -/
def Admits (c : Cursor) : Goal → Prop
  | joined left bound => ∃ v r, Derives (.ofRank r) v left ∧ bound.rank < r ∧
      (Grammar.standard.power c.kind).rank ≤ r
  | opening form => form = .block ∨ form = .item ∨ Grammar.standard.opening? c.kind = some form
  | joining form left p => Grammar.standard.joining? c.kind = some (p, form) ∧
      ∃ v, Derives (.ofRank p.rank) v left
  | _ => True

/-- The tokens passed over derive the tree. -/
def Spells (c : Cursor) (e : Expr) (c' : Cursor) : Goal → Prop
  | expr bound => ∃ u, c.Passes u c' ∧ Derives (.ofRank (bound.rank + 1)) u e ∧
      ¬ bound < Grammar.standard.power c'.kind
  | joined left bound => ∃ u, c.Passes u c' ∧ ¬ bound < Grammar.standard.power c'.kind ∧
      ∀ v r, Derives (.ofRank r) v left → bound.rank < r →
        (Grammar.standard.power c.kind).rank ≤ r →
        Derives (.ofRank (bound.rank + 1)) (v ++ u) e
  | opening .item => ∃ u, c.Passes u c' ∧ Item u e c'.kind
  | opening form => ∃ u, c.Passes u c' ∧ Derives form.phrase u e
  | joining _ left p => ∃ u, c.Passes u c' ∧ u ≠ [] ∧ ¬ p < Grammar.standard.power c'.kind ∧
      ∀ v, Derives (.ofRank p.rank) v left → Derives (.ofRank p.rank) (v ++ u) e
  | block items => ∃ u r es, c.Passes (u ++ [r]) c' ∧ r.kind = .closeCurly ∧
      Derives .items u (.sequence es) ∧ e = .sequence (items.reverse ++ es)
  | program items => ∃ u es, c.Passes u c' ∧ c'.kind = .eof ∧
      Derives .items u (.sequence es) ∧ e = .program (items.reverse ++ es)

theorem spells_opening {form : Opening} (hf : form ≠ .item) {c c' : Cursor} {e : Expr} :
    (opening form).Spells c e c' ↔ ∃ u, c.Passes u c' ∧ Derives form.phrase u e := by
  cases form <;> first | rfl | exact absurd rfl hf

/-- Reading within a budget passes over what it should. -/
def Sound (n : Nat) : Prop :=
  ∀ {goal : Goal} {c : Cursor} {e : Expr} {c' : Cursor}, goal.Gives n c e c' → c.Ended →
    goal.Admits c → goal.Spells c e c'

namespace Sound

variable {n : Nat} {c c' : Cursor} {e : Expr}

theorem expr (ih : Sound n) (hc : c.Ended) {bound : Power}
    (h : (expr bound).Gives (n + 1) c e c') : (Goal.expr bound).Spells c e c' := by
  obtain ⟨form, a, c₁, hf, ha, hj⟩ := gives_expr.1 h
  obtain ⟨u, hu, hd⟩ := (spells_opening (Grammar.opening_ne_item hf)).1 (ih ha hc (.inr (.inr hf)))
  have hd : Derives (.ofRank 9) u a := hd.unary_of_opening
  have hb : bound.rank < 9 := Nat.lt_succ_of_le bound.rank_le
  have hk : (Grammar.standard.power c₁.kind).rank ≤ 9 := Nat.le_succ_of_le (Power.rank_le _)
  obtain ⟨v, hv, hs, he⟩ := ih hj (hu.ended hc) ⟨u, 9, hd, hb, hk⟩
  exact ⟨u ++ v, hu.trans hv, he u 9 hd hb hk, hs⟩

theorem joined (ih : Sound n) (hc : c.Ended) {left : Expr} {bound : Power}
    (ha : (joined left bound).Admits c) (h : (joined left bound).Gives (n + 1) c e c') :
    (Goal.joined left bound).Spells c e c' := by
  obtain ⟨hs, rfl, rfl⟩ | ⟨p, form, a, c₁, hp, hb, hl, hj⟩ := gives_joined.1 h
  · exact ⟨[], .refl _, hs, fun v r hv hr _ => by rw [List.append_nil]; exact hv.weaken hr⟩
  have hk : Grammar.standard.power c.kind = p := Grammar.power_of_joining hp
  -- The operator's power is the rank of the phrase so far, from here on.
  obtain ⟨v, r, hv, -, hr⟩ := ha
  rw [hk] at hr
  obtain ⟨u, hu, -, hstop, he⟩ := ih hl hc ⟨hp, v, hv.weaken hr⟩
  have hle : (Grammar.standard.power c₁.kind).rank ≤ p.rank := Nat.le_of_not_lt hstop
  obtain ⟨w, hw, hs, hj⟩ := ih hj (hu.ended hc) ⟨v ++ u, p.rank, he v (hv.weaken hr), hb, hle⟩
  refine ⟨u ++ w, hu.trans hw, hs, fun v' r' hv' _ hr' => ?_⟩
  rw [hk] at hr'
  rw [← List.append_assoc]
  exact hj _ _ (he v' (hv'.weaken hr')) hb hle

theorem joining (ih : Sound n) (hc : c.Ended) {form : Joining} {left : Expr} {p : Power}
    (ha : (joining form left p).Admits c) (h : (joining form left p).Gives (n + 1) c e c') :
    (Goal.joining form left p).Spells c e c' := by
  obtain ⟨hp, -⟩ := ha
  have ht := hc.passes (Grammar.ne_eof_of_joining hp)
  cases form with
  | binary =>
    obtain ⟨tree, a, htree, ha, rfl⟩ := gives_binary.1 h
    obtain ⟨u, hu, hd, hs⟩ := ih ha (ht.ended hc) trivial
    obtain ⟨l, tree', hl, hr, htl, htb⟩ := Grammar.level_of_joining hp
    cases htree.symm.trans htb
    refine ⟨_, ht.trans hu, by simp, hs, fun v hv => ?_⟩
    rw [hl] at hv ⊢
    rw [hr] at hd
    exact .binary hv htl hd
  | assignment =>
    obtain ⟨x, a, rfl, ha, rfl⟩ := gives_assignment.1 h
    obtain ⟨u, hu, hd, hs⟩ := ih ha (ht.ended hc) trivial
    obtain ⟨hk, rfl⟩ := Grammar.eq_of_joining_assignment hp
    refine ⟨_, ht.trans hu, by simp, ?_, fun v hv => .assign hv.target_of_var hk hd⟩
    intro hlt
    exact hs (Nat.lt_of_le_of_lt (Nat.zero_le _) hlt)

theorem opening_block (ih : Sound n) (hc : c.Ended) (h : (opening .block).Gives (n + 1) c e c') :
    ∃ u, c.Passes u c' ∧ Derives .block u e := by
  obtain ⟨hk, hb⟩ := gives_opening_block.1 h
  have hl := hc.passes (by rw [hk]; simp)
  obtain ⟨u, r, es, hu, hr, hd, rfl⟩ := ih hb (hl.ended hc) trivial
  exact ⟨_, hl.trans hu, .block hk hr hd⟩

theorem group (ih : Sound n) (hc : c.Ended) (hk : c.kind = .openParen)
    (h : (opening .group).Gives (n + 1) c e c') : ∃ u, c.Passes u c' ∧ Derives .primary u e := by
  have hl := hc.passes (by rw [hk]; simp)
  obtain ⟨hr, rfl, rfl⟩ | ⟨-, c₁, he, hr, rfl⟩ := gives_group.1 h
  · have hp := (hl.ended hc).passes (by rw [hr]; simp)
    exact ⟨_, hl.trans hp, .unit hk hr⟩
  · obtain ⟨u, hu, hd, -⟩ := ih he (hl.ended hc) trivial
    have hp := (hu.ended (hl.ended hc)).passes (by rw [hr]; simp)
    exact ⟨_, hl.trans (hu.trans hp), .group hk hr hd⟩

theorem print (ih : Sound n) (hc : c.Ended) (hk : c.kind = .printWord)
    (h : (opening .print).Gives (n + 1) c e c') : ∃ u, c.Passes u c' ∧ Derives .primary u e := by
  have ht := hc.passes (by rw [hk]; simp)
  obtain ⟨hl, a, c₁, ha, hr, rfl, rfl⟩ := gives_print.1 h
  have hp := (ht.ended hc).passes (by rw [hl]; simp)
  obtain ⟨u, hu, hd, -⟩ := ih ha (hp.ended (ht.ended hc)) trivial
  have hq := (hu.ended (hp.ended (ht.ended hc))).passes (by rw [hr]; simp)
  exact ⟨_, ht.trans (hp.trans (hu.trans hq)), .print hk hl hr hd⟩

theorem loop (ih : Sound n) (hc : c.Ended) (hk : c.kind = .whileWord)
    (h : (opening .loop).Gives (n + 1) c e c') : ∃ u, c.Passes u c' ∧ Derives .primary u e := by
  have ht := hc.passes (by rw [hk]; simp)
  obtain ⟨a, b, c₁, ha, hb, rfl⟩ := gives_loop.1 h
  obtain ⟨u, hu, hd, -⟩ := ih ha (ht.ended hc) trivial
  obtain ⟨v, hv, hdb⟩ := ih hb (hu.ended (ht.ended hc)) (.inl rfl)
  exact ⟨_ :: (u ++ v), ht.trans (hu.trans hv), .loop hk hd hdb⟩

theorem branch (ih : Sound n) (hc : c.Ended) (hk : c.kind = .ifWord)
    (h : (opening .branch).Gives (n + 1) c e c') : ∃ u, c.Passes u c' ∧ Derives .branch u e := by
  have ht := hc.passes (by rw [hk]; simp)
  obtain ⟨a, y, c₁, c₂, ha, hy, ho⟩ := gives_branch.1 h
  obtain ⟨u, hu, hd, -⟩ := ih ha (ht.ended hc) trivial
  obtain ⟨v, hv, hdy⟩ := ih hy (hu.ended (ht.ended hc)) (.inl rfl)
  obtain ⟨-, rfl, rfl⟩ | ⟨hs, o, rfl, ho⟩ := ho
  · exact ⟨_ :: (u ++ v), ht.trans (hu.trans hv), .branch hk hd hdy⟩
  have hend := hv.ended (hu.ended (ht.ended hc))
  have hp := hend.passes (by rw [hs]; simp)
  split at ho
  · next hi =>
    obtain ⟨w, hw, hdo⟩ := ih ho (hp.ended hend) (.inr (.inr (by rw [hi]; rfl)))
    exact ⟨_, ht.trans (hu.trans (hv.trans (hp.trans hw))), .branchElse hk hd hdy hs (.inr rfl) hdo⟩
  · obtain ⟨w, hw, hdo⟩ := ih ho (hp.ended hend) (.inl rfl)
    exact ⟨_, ht.trans (hu.trans (hv.trans (hp.trans hw))), .branchElse hk hd hdy hs (.inl rfl) hdo⟩

theorem item (ih : Sound n) (hc : c.Ended) (h : (opening .item).Gives (n + 1) c e c') :
    ∃ u, c.Passes u c' ∧ Item u e c'.kind := by
  obtain ⟨c₁, he, hsep⟩ := gives_item.1 h
  obtain ⟨u, hu, hd, hs⟩ := ih he hc trivial
  obtain ⟨hk, rfl⟩ | ⟨-, rfl, hk⟩ := Parse.separator_ok_iff.1 hsep
  · have hp := (hu.ended hc).passes (by rw [hk]; simp)
    exact ⟨_, hu.trans hp, .inl ⟨u, _, rfl, hk, hd⟩⟩
  · refine ⟨u, hu, .inr ⟨hd, ?_⟩⟩
    obtain hk | hk | hk := hk
    · exact .inl hk
    · exact .inr (.inl hk)
    · obtain ⟨t, v, -, rfl, -⟩ := hd.exists_cons (Phrase.ofRank_ne_items _)
      refine .inr (.inr ⟨Grammar.not_lowest_lt_power.1 hs, ?_⟩)
      -- The token passed over last is the last token of the item.
      rw [Cursor.previous?, hu.before, List.head?_append, List.head?_reverse,
        List.getLast?_cons, Option.some_or] at hk
      exact ⟨_, List.getLast?_cons, Option.some.inj hk⟩

theorem opening (ih : Sound n) (hc : c.Ended) {form : Opening} (ha : (opening form).Admits c)
    (h : (opening form).Gives (n + 1) c e c') : (Goal.opening form).Spells c e c' := by
  have hk (hb : form ≠ .block) (hi : form ≠ .item) :=
    Grammar.kind_of_opening ((ha.resolve_left hb).resolve_left hi)
  have simple (h : ∃ u, c.Passes u c' ∧ Derives .primary u e) :
      ∃ u, c.Passes u c' ∧ Derives .unary u e := by
    obtain ⟨u, hu, hd⟩ := h
    exact ⟨u, hu, .simple hd⟩
  cases form with
  | primary =>
    obtain ⟨he, rfl⟩ := gives_primary.1 h
    have hne : c.kind ≠ .eof := by
      intro hk
      rw [Token.expr?, show c.current.kind = .eof from hk] at he
      cases he
    exact simple ⟨_, hc.passes hne, .of_expr? he⟩
  | signed =>
    obtain ⟨a, he, hs⟩ := gives_signed.1 h
    have hne : c.kind ≠ .eof := by
      rintro hk
      simp [Kind.Signs, hk] at hs
    have ht := hc.passes hne
    obtain ⟨u, hu, hd, -⟩ := ih he (ht.ended hc) trivial
    exact ⟨_, ht.trans hu, .of_signs hs hd⟩
  | group => exact simple (ih.group hc (hk (by simp) (by simp)) h)
  | print => exact simple (ih.print hc (hk (by simp) (by simp)) h)
  | block => exact ih.opening_block hc h
  | branch => exact ih.branch hc (hk (by simp) (by simp)) h
  | loop => exact simple (ih.loop hc (hk (by simp) (by simp)) h)
  | item => exact ih.item hc h

theorem block (ih : Sound n) (hc : c.Ended) {items : List Expr}
    (h : (block items).Gives (n + 1) c e c') : (Goal.block items).Spells c e c' := by
  obtain ⟨hk, rfl, rfl⟩ | ⟨-, -, a, c₁, ha, hb⟩ := gives_block.1 h
  · exact ⟨[], _, [], hc.passes (by rw [hk]; simp), hk, .noItems, by simp⟩
  · obtain ⟨u, hu, hi⟩ := ih ha hc (.inr (.inl rfl))
    obtain ⟨v, r, es, hv, hr, hd, rfl⟩ := ih hb (hu.ended hc) trivial
    refine ⟨u ++ v, r, a :: es, ?_, hr, hi.derives_cons hd ?_, by simp⟩
    · rw [List.append_assoc]
      exact hu.trans hv
    · rintro t w rfl
      exact hv.kind_of_cons.symm

theorem program (ih : Sound n) (hc : c.Ended) {items : List Expr}
    (h : (program items).Gives (n + 1) c e c') : (Goal.program items).Spells c e c' := by
  obtain ⟨hk, rfl, rfl⟩ | ⟨-, a, c₁, ha, hb⟩ := gives_program.1 h
  · exact ⟨[], [], .refl _, hk, .noItems, by simp⟩
  · obtain ⟨u, hu, hi⟩ := ih ha hc (.inr (.inl rfl))
    obtain ⟨v, es, hv, hk, hd, rfl⟩ := ih hb (hu.ended hc) trivial
    refine ⟨u ++ v, a :: es, hu.trans hv, hk, hi.derives_cons hd ?_, by simp⟩
    rintro t w rfl
    exact hv.kind_of_cons.symm

end Sound

theorem sound (n : Nat) : Sound n := by
  induction n with
  | zero => exact fun h => absurd h not_gives_zero
  | succ n ih =>
    intro goal c e c' h hc ha
    cases goal with
    | expr bound => exact ih.expr hc h
    | joined left bound => exact ih.joined hc ha h
    | opening form => exact ih.opening hc ha h
    | joining form left p => exact ih.joining hc ha h
    | block items => exact ih.block hc h
    | program items => exact ih.program hc h

/-- **The tokens that a met goal passes over derive its tree.** -/
theorem Gives.spells {n : Nat} {goal : Goal} {c c' : Cursor} {e : Expr}
    (h : goal.Gives n c e c') (hc : c.Ended) (ha : goal.Admits c) : goal.Spells c e c' :=
  sound n h hc ha

/-! ## A budget that suffices -/

/-- The goals that are met only by moving on. -/
def Moves : Goal → Prop
  | joined _ _ | program _ => False
  | _ => True

theorem Spells.ended {goal : Goal} {c c' : Cursor} {e : Expr} (h : goal.Spells c e c')
    (hc : c.Ended) : c'.Ended := by
  match goal, h with
  | expr _, ⟨_, hu, _⟩ | joined _ _, ⟨_, hu, _⟩ | joining _ _ _, ⟨_, hu, _⟩
  | block _, ⟨_, _, _, hu, _⟩ | program _, ⟨_, _, hu, _⟩ => exact hu.ended hc
  | opening form, h =>
    cases form <;> exact h.choose_spec.1.ended hc

theorem Spells.length_lt {goal : Goal} {c c' : Cursor} {e : Expr} (h : goal.Spells c e c')
    (hg : goal.Moves) : c'.after.length < c.after.length := by
  have lt {u : List Token} (hu : c.Passes u c') (h : u ≠ []) :
      c'.after.length < c.after.length := by
    have := List.length_pos_iff.2 h
    have := hu.length_after
    omega
  have ne_nil {p : Phrase} {u : List Token} (hp : p ≠ .items) (hd : Derives p u e) : u ≠ [] := by
    obtain ⟨t, v, -, rfl, -⟩ := hd.exists_cons hp
    simp
  match goal, h with
  | expr _, ⟨u, hu, hd, _⟩ => exact lt hu (ne_nil (Phrase.ofRank_ne_items _) hd)
  | opening .item, ⟨u, hu, hi⟩ => exact lt hu hi.ne_nil
  | opening .primary, ⟨u, hu, hd⟩ | opening .signed, ⟨u, hu, hd⟩ | opening .group, ⟨u, hu, hd⟩
  | opening .print, ⟨u, hu, hd⟩ | opening .block, ⟨u, hu, hd⟩ | opening .branch, ⟨u, hu, hd⟩
  | opening .loop, ⟨u, hu, hd⟩ => exact lt hu (ne_nil (by simp [Opening.phrase]) hd)
  | joining _ _ _, ⟨u, hu, hn, _⟩ => exact lt hu hn
  | block _, ⟨u, r, _, hu, _⟩ => exact lt hu (by simp)

/-- A budget for the goal: four goals for each token, and those before the next one. -/
def need (c : Cursor) (goal : Goal) : Nat :=
  4 * c.after.length + match goal with
    | opening .item => 3
    | opening _ | joining _ _ _ => 1
    | expr _ | joined _ _ => 2
    | block _ | program _ => 4

/-- Reading within a budget ends, if the budget covers the need. -/
def Ends (n : Nat) : Prop :=
  ∀ {goal : Goal} {c : Cursor}, c.Ended → goal.Admits c → goal.need c ≤ n →
    goal.read .standard n c ≠ none

namespace Ends

variable {n : Nat} {c : Cursor}

/-- A goal read first ends, and the rest is asked only where it was met. -/
theorem bind (ih : Ends n) (goal : Goal) (hc : c.Ended) (ha : goal.Admits c)
    (hn : goal.need c ≤ n) {f : Expr → Parse Expr}
    (hf : ∀ a c₁, goal.Spells c a c₁ → c₁.Ended → f a c₁ ≠ none) :
    (goal.read .standard n >>= f) c ≠ none := by
  refine Attempt.bind_ne_none (ih hc ha hn) fun a c₁ h => ?_
  have hs : goal.Spells c a c₁ := Gives.spells h hc ha
  exact hf a c₁ hs (hs.ended hc)

theorem expr (ih : Ends n) (hc : c.Ended) {bound : Power} (hn : (expr bound).need c ≤ n + 1) :
    (expr bound).read .standard (n + 1) c ≠ none := by
  simp only [need] at hn
  simp only [read, Parse.peek_bind_apply]
  cases hf : Grammar.standard.opening? c.current.kind with
  | none => simp [Parse.unexpectedFor]
  | some form =>
    have hi := Grammar.opening_ne_item hf
    have hneed : (Goal.opening form).need c ≤ n := by
      cases form <;> simp only [need] <;> first | omega | exact absurd rfl hi
    refine ih.bind (.opening form) hc (.inr (.inr hf)) hneed fun a c₁ hs hc₁ => ?_
    obtain ⟨u, -, hd⟩ := (spells_opening hi).1 hs
    have hlt := hs.length_lt trivial
    exact ih hc₁ ⟨u, 9, hd.unary_of_opening, Nat.lt_succ_of_le bound.rank_le,
      Nat.le_succ_of_le (Power.rank_le _)⟩ (by simp only [need]; omega)

theorem joined (ih : Ends n) (hc : c.Ended) {left : Expr} {bound : Power}
    (ha : (joined left bound).Admits c) (hn : (joined left bound).need c ≤ n + 1) :
    (joined left bound).read .standard (n + 1) c ≠ none := by
  simp only [need] at hn
  simp only [read, Parse.peek_bind_apply]
  cases hj : Grammar.standard.joining? c.current.kind with
  | none => simp
  | some j =>
    obtain ⟨p, form⟩ := j
    dsimp only
    split
    · next hb =>
      obtain ⟨v, r, hv, -, hr⟩ := ha
      have hv : Derives (.ofRank p.rank) v left := by
        rw [Cursor.kind, Grammar.power_of_joining hj] at hr
        exact hv.weaken hr
      refine ih.bind (.joining form left p) hc ⟨hj, v, hv⟩ (by simp only [need]; omega)
        fun a c₁ hs hc₁ => ?_
      have hlt := hs.length_lt trivial
      obtain ⟨u, -, -, hstop, he⟩ := hs
      exact ih hc₁ ⟨v ++ u, p.rank, he v hv, hb, Nat.le_of_not_lt hstop⟩
        (by simp only [need]; omega)
    · simp

theorem joining (ih : Ends n) (hc : c.Ended) {form : Joining} {left : Expr} {p : Power}
    (ha : (joining form left p).Admits c) (hn : (joining form left p).need c ≤ n + 1) :
    (joining form left p).read .standard (n + 1) c ≠ none := by
  simp only [need] at hn
  have hne := Grammar.ne_eof_of_joining ha.1
  have hlt := hc.length_advance hne
  cases form with
  | binary =>
    simp only [read, Parse.next_bind_apply]
    refine ih.bind (.expr p) (hc.advance hne) trivial (by simp only [need]; omega)
      fun a c₁ _ _ => ?_
    cases binary? c.current.kind <;> simp [Parse.unexpected]
  | assignment =>
    simp only [read, Parse.next_bind_apply]
    cases left
    case var x =>
      refine ih.bind (.expr .lowest) (hc.advance hne) trivial (by simp only [need]; omega) ?_
      simp
    all_goals simp

theorem branch (ih : Ends n) (hc : c.Ended) (hne : c.kind ≠ .eof) (hlen : 4 * c.after.length ≤ n) :
    (opening .branch).read .standard (n + 1) c ≠ none := by
  have hlt := hc.length_advance hne
  simp only [read]
  rw [Parse.next_bind_apply]
  refine ih.bind (.expr .lowest) (hc.advance hne) trivial (by simp only [need]; omega)
    fun a c₂ hs hc₂ => ?_
  have hlt₂ := hs.length_lt trivial
  refine ih.bind (.opening .block) hc₂ (.inl rfl) (by simp only [need]; omega)
    fun y c₃ hs hc₃ => ?_
  have hlt₃ := hs.length_lt trivial
  rw [Parse.peek_bind_apply]
  split
  · next hk =>
    have hne₃ : c₃.kind ≠ .eof := by rw [Cursor.kind, hk]; simp
    have hlt₄ := hc₃.length_advance hne₃
    rw [Parse.next_bind_apply, Parse.peek_bind_apply]
    split
    · next hk =>
      refine ih.bind (.opening .branch) (hc₃.advance hne₃) (.inr (.inr ?_))
        (by simp only [need]; omega) (by simp)
      rw [Cursor.kind, hk]
      rfl
    · exact ih.bind (.opening .block) (hc₃.advance hne₃) (.inl rfl) (by simp only [need]; omega)
        (by simp)
  · simp

/-- The forms that begin with a token of their own, and are read after it. -/
theorem opening_next (ih : Ends n) (hc : c.Ended) {form : Opening} (hi : form ≠ .item)
    (hf : Grammar.standard.opening? c.kind = some form)
    (hn : (opening form).need c ≤ n + 1) : (opening form).read .standard (n + 1) c ≠ none := by
  have hlen : 4 * c.after.length ≤ n := by
    cases form <;> simp only [need] at hn <;> omega
  have hne := Grammar.ne_eof_of_opening hf
  have hlt := hc.length_advance hne
  have hc₁ := hc.advance hne
  cases form <;> simp only [read]
  case primary => exact Parse.primary_ne_none
  case signed =>
    rw [Parse.next_bind_apply]
    refine ih.bind (.expr .unary) hc₁ trivial (by simp only [need]; omega) fun a c₂ _ _ => ?_
    exact Parse.signed_ne_none
  case group =>
    rw [Parse.next_bind_apply, Parse.peek_bind_apply]
    split
    · simp
    · refine ih.bind (.expr .lowest) hc₁ trivial (by simp only [need]; omega) fun a c₂ _ _ => ?_
      exact Parse.expect_bind_ne_none fun _ => by simp
  case print =>
    rw [Parse.next_bind_apply]
    refine Parse.expect_bind_ne_none fun hk => ?_
    have hne₁ : c.advance.kind ≠ .eof := by rw [hk]; simp
    have hlt₁ := hc₁.length_advance hne₁
    refine ih.bind (.expr .lowest) (hc₁.advance hne₁) trivial (by simp only [need]; omega)
      fun a c₂ _ _ => ?_
    exact Parse.expect_bind_ne_none fun _ => by simp
  case block =>
    refine Parse.expect_bind_ne_none fun _ => ?_
    exact ih hc₁ trivial (by simp only [need]; omega)
  case branch => simpa only [read] using ih.branch hc hne hlen
  case loop =>
    rw [Parse.next_bind_apply]
    refine ih.bind (.expr .lowest) hc₁ trivial (by simp only [need]; omega) fun a c₂ hs hc₂ => ?_
    have hlt₂ := hs.length_lt trivial
    exact ih.bind (.opening .block) hc₂ (.inl rfl) (by simp only [need]; omega) (by simp)
  case item => exact absurd rfl hi

theorem opening_block (ih : Ends n) (hc : c.Ended) (hn : (opening .block).need c ≤ n + 1) :
    (opening .block).read .standard (n + 1) c ≠ none := by
  by_cases hk : c.kind = .openCurly
  · exact ih.opening_next hc (by simp) (by rw [hk]; rfl) hn
  · simp only [read]
    exact Parse.expect_bind_ne_none fun h => absurd h hk

theorem item (ih : Ends n) (hc : c.Ended) (hn : (opening .item).need c ≤ n + 1) :
    (opening .item).read .standard (n + 1) c ≠ none := by
  simp only [need] at hn
  simp only [read]
  refine ih.bind (.expr .lowest) hc trivial (by simp only [need]; omega) fun a c₁ _ _ => ?_
  exact Attempt.bind_ne_none Parse.separator_ne_none (by simp)

/-- An item and the goal after it: both loops over items. -/
theorem items (ih : Ends n) (hc : c.Ended) {loop : List Expr → Goal} {items : List Expr}
    (hl : ∀ c items, (loop items).need c = 4 * c.after.length + 4)
    (ha : ∀ c items, (loop items).Admits c) (hn : (loop items).need c ≤ n + 1) :
    ((opening .item).read .standard n >>= fun a => (loop (a :: items)).read .standard n) c ≠
      none := by
  rw [hl] at hn
  refine ih.bind (.opening .item) hc (.inr (.inl rfl)) (by simp only [need]; omega)
    fun a c₁ hs hc₁ => ?_
  have hlt := hs.length_lt trivial
  exact ih hc₁ (ha _ _) (by rw [hl]; omega)

theorem block (ih : Ends n) (hc : c.Ended) {items : List Expr}
    (hn : (block items).need c ≤ n + 1) : (block items).read .standard (n + 1) c ≠ none := by
  simp only [read, Parse.peek_bind_apply]
  split
  · simp
  · split
    · simp [Parse.unexpectedFor]
    · exact ih.items hc (fun _ _ => rfl) (fun _ _ => trivial) hn

theorem program (ih : Ends n) (hc : c.Ended) {items : List Expr}
    (hn : (program items).need c ≤ n + 1) : (program items).read .standard (n + 1) c ≠ none := by
  simp only [read, Parse.peek_bind_apply]
  split
  · simp
  · exact ih.items hc (fun _ _ => rfl) (fun _ _ => trivial) hn

end Ends

/-- **A budget that covers the need of a goal is not spent.** -/
theorem ends (n : Nat) : Ends n := by
  induction n with
  | zero =>
    intro goal c _ _ hn
    rcases goal with _ | _ | form | _ | _ | _ <;> try cases form
    all_goals simp [need] at hn
  | succ n ih =>
    intro goal c hc ha hn
    cases goal with
    | expr bound => exact ih.expr hc hn
    | joined left bound => exact ih.joined hc ha hn
    | opening form =>
      obtain rfl | rfl | hf := ha
      · exact ih.opening_block hc hn
      · exact ih.item hc hn
      · exact ih.opening_next hc (Grammar.opening_ne_item hf) hf hn
    | joining form left p => exact ih.joining hc ha hn
    | block items => exact ih.block hc hn
    | program items => exact ih.program hc hn

end Goal

end ExprScript
