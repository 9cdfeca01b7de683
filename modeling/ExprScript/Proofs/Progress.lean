import Mathlib.Logic.Relation
import ExprScript.Proofs.Acceptance

/-!
# Reading ends, and every call moves on

Reading a goal calls for the reading of other goals, at once or after some of them have been met.
Such calls are listed here, one rule for each place where reading goes on to another goal. Nothing
in the shape of the goals makes them smaller: a call of the list may be for the same goal, and a
cursor on the last token does not move. What makes reading end is that no form is entered on an end
token, so that a goal that is met has passed over a token, and none of them is an end.

* `Call`, `Call.Makes`: the calls that a call makes.
* **`Call.answer?_eq_none_iff`**: these are the calls that reading makes.
* `Cursor.Reaches`: the tokens between two cursors are no end.
* **`Call.Makes.descends`**: one call; `Call.Ready.acc`, `Call.Ready.of_reflTransGen`: all calls.
* **`parse_progress`**: reading ends, and its calls move on up to the first end.
-/

namespace ExprScript

theorem Cursor.current_kind (c : Cursor) : c.current.kind = c.kind := rfl

/-! ## Budgets that are spent -/

theorem Parse.of_expect_bind_eq_none {kind : Kind} {f : Token → Parse Expr} {c : Cursor}
    (h : (expect kind >>= f) c = none) : c.kind = kind ∧ f c.current c.advance = none := by
  refine Classical.byContradiction fun hne => ?_
  exact expect_bind_ne_none (fun hk hf => hne ⟨hk, hf⟩) h

namespace Goal

variable {goal : Goal} {n : Nat} {c c₁ : Cursor} {a : Expr} {f : Expr → Parse Expr}

theorem Finds.bind_eq_none (ha : goal.Finds c a c₁) (h : f a c₁ = none) :
    (goal.read .standard n >>= f) c = none := by
  obtain ⟨m, ha⟩ := ha
  cases hn : goal.read .standard n c with
  | none => exact Attempt.bind_of_none hn f
  | some p =>
    obtain rfl := read_unique ha hn
    rwa [Attempt.bind_of_ok hn]

theorem or_of_bind_eq_none (h : (goal.read .standard n >>= f) c = none) :
    goal.read .standard n c = none ∨ ∃ a c₁, goal.Gives n c a c₁ ∧ f a c₁ = none := by
  cases hn : goal.read .standard n c with
  | none => exact .inl rfl
  | some p =>
    obtain ⟨r, c₁⟩ := p
    cases r with
    | error f =>
      rw [Attempt.bind_of_error hn] at h
      cases h
    | ok a =>
      rw [Attempt.bind_of_ok hn] at h
      exact .inr ⟨a, c₁, hn, h⟩

end Goal

/-! ## Calls -/

/-- A goal that is to be read from a cursor on. -/
structure Call where
  goal : Goal
  cursor : Cursor

namespace Call

open Goal

/-- What the call ends with, if its budget is not spent. -/
def answer? (x : Call) (n : Nat) : Option (Except Fault Expr × Cursor) :=
  x.goal.read .standard n x.cursor

/-- The first call makes the second. A call after others is made only where those were met. -/
inductive Makes : Call → Call → Prop
  | exprOpening {c : Cursor} {bound : Power} {form : Opening}
      (hf : Grammar.standard.opening? c.kind = some form) :
      Makes ⟨expr bound, c⟩ ⟨opening form, c⟩
  | exprJoined {c c₁ : Cursor} {bound : Power} {form : Opening} {a : Expr}
      (hf : Grammar.standard.opening? c.kind = some form) (ha : (opening form).Finds c a c₁) :
      Makes ⟨expr bound, c⟩ ⟨joined a bound, c₁⟩
  | joinedJoining {c : Cursor} {left : Expr} {bound p : Power} {form : Joining}
      (hj : Grammar.standard.joining? c.kind = some (p, form)) (hb : bound < p) :
      Makes ⟨joined left bound, c⟩ ⟨joining form left p, c⟩
  | joinedJoined {c c₁ : Cursor} {left a : Expr} {bound p : Power} {form : Joining}
      (hj : Grammar.standard.joining? c.kind = some (p, form)) (hb : bound < p)
      (ha : (joining form left p).Finds c a c₁) :
      Makes ⟨joined left bound, c⟩ ⟨joined a bound, c₁⟩
  | signed (c : Cursor) : Makes ⟨opening .signed, c⟩ ⟨expr .unary, c.advance⟩
  | group {c : Cursor} (hk : c.advance.kind ≠ .closeParen) :
      Makes ⟨opening .group, c⟩ ⟨expr .lowest, c.advance⟩
  | print {c : Cursor} (hk : c.advance.kind = .openParen) :
      Makes ⟨opening .print, c⟩ ⟨expr .lowest, c.advance.advance⟩
  | openingBlock {c : Cursor} (hk : c.kind = .openCurly) :
      Makes ⟨opening .block, c⟩ ⟨block [], c.advance⟩
  | branchCondition (c : Cursor) : Makes ⟨opening .branch, c⟩ ⟨expr .lowest, c.advance⟩
  | branchYes {c c₁ : Cursor} {a : Expr} (ha : (expr .lowest).Finds c.advance a c₁) :
      Makes ⟨opening .branch, c⟩ ⟨opening .block, c₁⟩
  | branchNo {c c₁ c₂ : Cursor} {a y : Expr} (ha : (expr .lowest).Finds c.advance a c₁)
      (hy : (opening .block).Finds c₁ y c₂) (hk : c₂.kind = .elseWord) :
      Makes ⟨opening .branch, c⟩
        ⟨opening (if c₂.advance.kind = .ifWord then .branch else .block), c₂.advance⟩
  | loopCondition (c : Cursor) : Makes ⟨opening .loop, c⟩ ⟨expr .lowest, c.advance⟩
  | loopBody {c c₁ : Cursor} {a : Expr} (ha : (expr .lowest).Finds c.advance a c₁) :
      Makes ⟨opening .loop, c⟩ ⟨opening .block, c₁⟩
  | item (c : Cursor) : Makes ⟨opening .item, c⟩ ⟨expr .lowest, c⟩
  | binary (c : Cursor) (left : Expr) (p : Power) :
      Makes ⟨joining .binary left p, c⟩ ⟨expr p, c.advance⟩
  | assignment (c : Cursor) (x : String) (p : Power) :
      Makes ⟨joining .assignment (.var x) p, c⟩ ⟨expr .lowest, c.advance⟩
  | blockItem {c : Cursor} {items : List Expr} (hk : c.kind ≠ .closeCurly) (he : c.kind ≠ .eof) :
      Makes ⟨block items, c⟩ ⟨opening .item, c⟩
  | blockRest {c c₁ : Cursor} {items : List Expr} {a : Expr} (hk : c.kind ≠ .closeCurly)
      (he : c.kind ≠ .eof) (ha : (opening .item).Finds c a c₁) :
      Makes ⟨block items, c⟩ ⟨block (a :: items), c₁⟩
  | programItem {c : Cursor} {items : List Expr} (he : c.kind ≠ .eof) :
      Makes ⟨program items, c⟩ ⟨opening .item, c⟩
  | programRest {c c₁ : Cursor} {items : List Expr} {a : Expr} (he : c.kind ≠ .eof)
      (ha : (opening .item).Finds c a c₁) : Makes ⟨program items, c⟩ ⟨program (a :: items), c₁⟩

/-! ## The calls of the list are those of reading -/

theorem Makes.answer?_eq_none {x y : Call} (h : x.Makes y) {n : Nat} (hy : y.answer? n = none) :
    x.answer? (n + 1) = none := by
  unfold answer?
  cases h with
  | exprOpening hf =>
    simp only [Goal.read, Parse.peek_bind_apply, Cursor.current_kind, hf]
    exact Attempt.bind_of_none hy _
  | exprJoined hf ha =>
    simp only [Goal.read, Parse.peek_bind_apply, Cursor.current_kind, hf]
    exact ha.bind_eq_none hy
  | joinedJoining hj hb =>
    simp only [Goal.read, Parse.peek_bind_apply, Cursor.current_kind, hj, if_pos hb]
    exact Attempt.bind_of_none hy _
  | joinedJoined hj hb ha =>
    simp only [Goal.read, Parse.peek_bind_apply, Cursor.current_kind, hj, if_pos hb]
    exact ha.bind_eq_none hy
  | signed | branchCondition | loopCondition | item | binary | assignment =>
    simp only [Goal.read]
    exact Attempt.bind_of_none hy _
  | group hk =>
    simp only [Goal.read]
    rw [Parse.next_bind_apply, Parse.peek_bind_apply, Cursor.current_kind, if_neg hk]
    exact Attempt.bind_of_none hy _
  | print hk =>
    simp only [Goal.read]
    rw [Parse.next_bind_apply, Attempt.bind_of_ok (Parse.expect_ok_iff.2 ⟨hk, rfl, rfl⟩)]
    exact Attempt.bind_of_none hy _
  | openingBlock hk =>
    simp only [Goal.read]
    rw [Attempt.bind_of_ok (Parse.expect_ok_iff.2 ⟨hk, rfl, rfl⟩)]
    exact hy
  | branchYes ha | loopBody ha =>
    simp only [Goal.read]
    exact ha.bind_eq_none (Attempt.bind_of_none hy _)
  | branchNo ha hb hk =>
    simp only [Goal.read]
    refine ha.bind_eq_none (hb.bind_eq_none ?_)
    rw [Parse.peek_bind_apply, Cursor.current_kind, if_pos hk]
    exact Attempt.bind_of_none hy _
  | blockItem hk he =>
    simp only [Goal.read]
    rw [Parse.peek_bind_apply, Cursor.current_kind, if_neg hk, if_neg he]
    exact Attempt.bind_of_none hy _
  | blockRest hk he ha =>
    simp only [Goal.read]
    rw [Parse.peek_bind_apply, Cursor.current_kind, if_neg hk, if_neg he]
    exact ha.bind_eq_none hy
  | programItem he =>
    simp only [Goal.read]
    rw [Parse.peek_bind_apply, Cursor.current_kind, if_neg he]
    exact Attempt.bind_of_none hy _
  | programRest he ha =>
    simp only [Goal.read]
    rw [Parse.peek_bind_apply, Cursor.current_kind, if_neg he]
    exact ha.bind_eq_none hy

theorem exists_makes_opening {n : Nat} {form : Opening} {c : Cursor}
    (h : answer? ⟨opening form, c⟩ (n + 1) = none) :
    ∃ y, Makes ⟨opening form, c⟩ y ∧ y.answer? n = none := by
  unfold answer? at h
  cases form <;> simp only [Goal.read] at h
  case primary => exact absurd h Parse.primary_ne_none
  case signed =>
    rcases or_of_bind_eq_none h with h | ⟨a, c₁, -, h⟩
    · exact ⟨_, .signed c, h⟩
    · exact absurd h Parse.signed_ne_none
  case group =>
    rw [Parse.next_bind_apply, Parse.peek_bind_apply, Cursor.current_kind] at h
    split at h
    · cases h
    · next hk =>
      rcases or_of_bind_eq_none h with h | ⟨a, c₁, -, h⟩
      · exact ⟨_, .group hk, h⟩
      · cases (Parse.of_expect_bind_eq_none h).2
  case print =>
    obtain ⟨hk, h⟩ := Parse.of_expect_bind_eq_none h
    rcases or_of_bind_eq_none h with h | ⟨a, c₁, -, h⟩
    · exact ⟨_, .print hk, h⟩
    · cases (Parse.of_expect_bind_eq_none h).2
  case block =>
    obtain ⟨hk, h⟩ := Parse.of_expect_bind_eq_none h
    exact ⟨_, .openingBlock hk, h⟩
  case branch =>
    rcases or_of_bind_eq_none h with h | ⟨a, c₁, ha, h⟩
    · exact ⟨_, .branchCondition c, h⟩
    rcases or_of_bind_eq_none h with h | ⟨y, c₂, hy, h⟩
    · exact ⟨_, .branchYes ⟨n, ha⟩, h⟩
    rw [Parse.peek_bind_apply, Cursor.current_kind] at h
    split at h
    · next hk =>
      rw [Parse.next_bind_apply, Parse.peek_bind_apply, Cursor.current_kind] at h
      rcases or_of_bind_eq_none h with h | ⟨o, c₃, -, h⟩
      · exact ⟨_, .branchNo ⟨n, ha⟩ ⟨n, hy⟩ hk, h⟩
      · cases h
    · cases h
  case loop =>
    rcases or_of_bind_eq_none h with h | ⟨a, c₁, ha, h⟩
    · exact ⟨_, .loopCondition c, h⟩
    rcases or_of_bind_eq_none h with h | ⟨y, c₂, -, h⟩
    · exact ⟨_, .loopBody ⟨n, ha⟩, h⟩
    · cases h
  case item =>
    rcases or_of_bind_eq_none h with h | ⟨a, c₁, -, h⟩
    · exact ⟨_, .item c, h⟩
    · exact absurd h (Attempt.bind_ne_none Parse.separator_ne_none (by simp))

theorem exists_makes {x : Call} {n : Nat} (h : x.answer? (n + 1) = none) :
    ∃ y, x.Makes y ∧ y.answer? n = none := by
  obtain ⟨goal, c⟩ := x
  rcases goal with bound | ⟨left, bound⟩ | form | ⟨form, left, p⟩ | items | items
  case opening => exact exists_makes_opening h
  all_goals unfold answer? at h
  case expr =>
    simp only [Goal.read, Parse.peek_bind_apply, Cursor.current_kind] at h
    cases hf : Grammar.standard.opening? c.kind with
    | none =>
      rw [hf] at h
      cases h
    | some form =>
      rw [hf] at h
      rcases or_of_bind_eq_none h with h | ⟨a, c₁, ha, h⟩
      · exact ⟨_, .exprOpening hf, h⟩
      · exact ⟨_, .exprJoined hf ⟨n, ha⟩, h⟩
  case joined =>
    simp only [Goal.read, Parse.peek_bind_apply, Cursor.current_kind] at h
    cases hj : Grammar.standard.joining? c.kind with
    | none =>
      rw [hj] at h
      cases h
    | some j =>
      rw [hj] at h
      dsimp only at h
      split at h
      · next hb =>
        rcases or_of_bind_eq_none h with h | ⟨a, c₁, ha, h⟩
        · exact ⟨_, .joinedJoining hj hb, h⟩
        · exact ⟨_, .joinedJoined hj hb ⟨n, ha⟩, h⟩
      · cases h
  case joining =>
    cases form <;> simp only [Goal.read] at h
    case binary =>
      rcases or_of_bind_eq_none h with h | ⟨a, c₁, -, h⟩
      · exact ⟨_, .binary c left p, h⟩
      · cases hk : binary? c.current.kind <;> simp [hk, Parse.unexpected] at h
    case assignment =>
      rw [Parse.next_bind_apply] at h
      split at h
      · next x =>
        rcases or_of_bind_eq_none h with h | ⟨a, c₁, -, h⟩
        · exact ⟨_, .assignment c x p, h⟩
        · cases h
      · cases h
  case block =>
    simp only [Goal.read] at h
    rw [Parse.peek_bind_apply, Cursor.current_kind] at h
    split at h
    · cases h
    · next hk =>
      split at h
      · cases h
      · next he =>
        rcases or_of_bind_eq_none h with h | ⟨a, c₁, ha, h⟩
        · exact ⟨_, .blockItem hk he, h⟩
        · exact ⟨_, .blockRest hk he ⟨n, ha⟩, h⟩
  case program =>
    simp only [Goal.read] at h
    rw [Parse.peek_bind_apply, Cursor.current_kind] at h
    split at h
    · cases h
    · next he =>
      rcases or_of_bind_eq_none h with h | ⟨a, c₁, ha, h⟩
      · exact ⟨_, .programItem he, h⟩
      · exact ⟨_, .programRest he ⟨n, ha⟩, h⟩

/-- **The budget of a call is spent if and only if that of a call it makes is.** -/
theorem answer?_eq_none_iff (x : Call) (n : Nat) :
    x.answer? (n + 1) = none ↔ ∃ y, x.Makes y ∧ y.answer? n = none :=
  ⟨exists_makes, fun ⟨_, hy, h⟩ => hy.answer?_eq_none h⟩

end Call

/-! ## Moving on -/

/-- The second cursor is further on, and no end is passed over. -/
def Cursor.Reaches (c c' : Cursor) : Prop := ∃ u, c.Passes u c' ∧ Endless u

namespace Cursor.Reaches

variable {c c₁ c' : Cursor}

theorem refl (c : Cursor) : c.Reaches c := ⟨[], .refl c, endless_nil⟩

theorem trans (h₁ : c.Reaches c₁) (h₂ : c₁.Reaches c') : c.Reaches c' := by
  obtain ⟨u, hu, hu'⟩ := h₁
  obtain ⟨v, hv, hv'⟩ := h₂
  exact ⟨u ++ v, hu.trans hv, endless_append.2 ⟨hu', hv'⟩⟩

theorem ended (h : c.Reaches c') (hc : c.Ended) : c'.Ended := by
  obtain ⟨u, hu, -⟩ := h
  exact hu.ended hc

theorem next (hc : c.Ended) (h : c.kind ≠ .eof) :
    c.Reaches c.advance ∧ c.advance.after.length < c.after.length :=
  ⟨⟨[c.current], hc.passes h, endless_cons.2 ⟨h, endless_nil⟩⟩, hc.length_advance h⟩

theorem index_add (h : c.Reaches c') :
    c.index + c.after.length = c'.index + c'.after.length := by
  obtain ⟨u, hu, -⟩ := h
  have hafter := hu.length_after
  have hbefore := congrArg List.length hu.before
  rw [List.length_append, List.length_reverse] at hbefore
  simp only [index]
  omega

theorem tokens_eq (h : c.Reaches c') : c'.tokens = c.tokens := by
  obtain ⟨u, hu, -⟩ := h
  rw [tokens, tokens, hu.before, hu.rest]
  simp

theorem index_le {ts : List Token} {file : String} (h : (start ts file).Reaches c') :
    c'.index ≤ (ts.takeWhile (·.kind ≠ .eof)).length := by
  obtain ⟨u, hu, hends⟩ := h
  have hrest := hu.rest
  rw [rest_start] at hrest
  have hindex : c'.index = u.length := by
    rw [index, hu.before, before_start, List.append_nil, List.length_reverse]
  rw [hindex, ← takeWhile_completed ts file, hrest,
    List.takeWhile_append_of_pos (by simpa [Endless] using hends), List.length_append]
  omega

end Cursor.Reaches

theorem Item.endless {u : List Token} {e : Expr} {next : Kind} (h : Item u e next) : Endless u := by
  obtain ⟨v, t, rfl, ht, hd⟩ | ⟨hd, -⟩ := h
  · simp [hd.endless, ht]
  · exact hd.endless

/-- A goal that is met passes over no end. -/
theorem Goal.Spells.reaches {goal : Goal} {c c' : Cursor} {e : Expr} (h : goal.Spells c e c')
    (ha : goal.Admits c) : c.Reaches c' := by
  match goal, h, ha with
  | expr _, ⟨u, hu, hd, _⟩, _ => exact ⟨u, hu, hd.endless⟩
  | joined _ _, ⟨u, hu, _, he⟩, ⟨v, r, hv, hb, hr⟩ =>
    exact ⟨u, hu, (endless_append.1 (he v r hv hb hr).endless).2⟩
  | opening .item, ⟨u, hu, hi⟩, _ => exact ⟨u, hu, hi.endless⟩
  | opening .primary, ⟨u, hu, hd⟩, _ | opening .signed, ⟨u, hu, hd⟩, _
  | opening .group, ⟨u, hu, hd⟩, _ | opening .print, ⟨u, hu, hd⟩, _
  | opening .block, ⟨u, hu, hd⟩, _ | opening .branch, ⟨u, hu, hd⟩, _
  | opening .loop, ⟨u, hu, hd⟩, _ => exact ⟨u, hu, hd.endless⟩
  | joining _ _ _, ⟨u, hu, _, _, he⟩, ⟨_, v, hv⟩ =>
    exact ⟨u, hu, (endless_append.1 (he v hv).endless).2⟩
  | block _, ⟨u, r, _, hu, hr, hd, _⟩, _ => exact ⟨u ++ [r], hu, by simp [hd.endless, hr]⟩
  | program _, ⟨u, _, hu, _, hd, _⟩, _ => exact ⟨u, hu, hd.endless⟩

namespace Goal

variable {goal : Goal} {c c' : Cursor} {e : Expr}

theorem need_bounds (goal : Goal) (c : Cursor) :
    4 * c.after.length < goal.need c ∧ goal.need c ≤ 4 * c.after.length + 4 := by
  rcases goal with _ | _ | form | _ | _ | _
  case opening => cases form <;> simp only [need] <;> omega
  all_goals
    simp only [need]
    omega

theorem ne_eof_of_admits {form : Opening} (ha : (opening form).Admits c) (hb : form ≠ .block)
    (hi : form ≠ .item) : c.kind ≠ .eof :=
  Grammar.ne_eof_of_opening ((ha.resolve_left hb).resolve_left hi)

theorem Finds.moves (h : goal.Finds c e c') (hc : c.Ended) (ha : goal.Admits c)
    (hg : goal.Moves) :
    goal.Spells c e c' ∧ c.Reaches c' ∧ c'.after.length < c.after.length := by
  obtain ⟨n, h⟩ := h
  have hs := h.spells hc ha
  exact ⟨hs, hs.reaches ha, hs.length_lt hg⟩

theorem Finds.moves_next {bound : Power} (h : (Goal.expr bound).Finds c.advance e c')
    (hc : c.Ended) (hne : c.kind ≠ .eof) : c.Reaches c' ∧ c'.after.length < c.after.length := by
  obtain ⟨hr, hlt⟩ := Cursor.Reaches.next hc hne
  obtain ⟨-, hr', hlt'⟩ := h.moves (hr.ended hc) trivial trivial
  exact ⟨hr.trans hr', by omega⟩

end Goal

namespace Call

open Goal

/-- The call may be made: an end is still to come, and the goal may be read here. -/
def Ready (x : Call) : Prop := x.cursor.Ended ∧ x.goal.Admits x.cursor

/-- The second call may be made, from where the first one is or further on, and needs less. -/
structure Descends (x y : Call) : Prop where
  admits : y.goal.Admits y.cursor
  reaches : x.cursor.Reaches y.cursor
  need_lt : y.goal.need y.cursor < x.goal.need x.cursor

theorem Descends.of_length_lt {goal goal' : Goal} {c c' : Cursor} (ha : goal'.Admits c')
    (hr : c.Reaches c') (hlt : c'.after.length < c.after.length) :
    Descends ⟨goal, c⟩ ⟨goal', c'⟩ := by
  have hless := (goal'.need_bounds c').2
  have hmore := (goal.need_bounds c).1
  exact ⟨ha, hr, by dsimp only; omega⟩

/-- **A call that is made needs less, or has fewer tokens left.** -/
theorem Makes.descends {x y : Call} (h : x.Makes y) (hx : x.Ready) : x.Descends y := by
  obtain ⟨hc, ha⟩ := hx
  cases h with
  | @exprOpening c bound form hf =>
    refine ⟨.inr (.inr hf), .refl c, ?_⟩
    have hi := Grammar.opening_ne_item hf
    cases form <;> simp only [need] <;> first | omega | exact absurd rfl hi
  | @exprJoined c c₁ bound form a hf hm =>
    obtain ⟨hs, hr, hlt⟩ := hm.moves hc (.inr (.inr hf)) trivial
    obtain ⟨u, -, hd⟩ := (spells_opening (Grammar.opening_ne_item hf)).1 hs
    refine .of_length_lt ⟨u, 9, hd.unary_of_opening, ?_, ?_⟩ hr hlt
    · exact Nat.lt_succ_of_le bound.rank_le
    · exact Nat.le_succ_of_le (Power.rank_le _)
  | @joinedJoining c left bound p form hj hb =>
    obtain ⟨v, r, hv, -, hr⟩ := ha
    rw [Grammar.power_of_joining hj] at hr
    exact ⟨⟨hj, v, hv.weaken hr⟩, .refl c, by simp only [need]; omega⟩
  | @joinedJoined c c₁ left a bound p form hj hb hm =>
    obtain ⟨v, r, hv, -, hr⟩ := ha
    rw [Grammar.power_of_joining hj] at hr
    obtain ⟨⟨u, -, -, hstop, he⟩, hr', hlt⟩ := hm.moves hc ⟨hj, v, hv.weaken hr⟩ trivial
    exact .of_length_lt ⟨v ++ u, p.rank, he v (hv.weaken hr), hb, Nat.le_of_not_lt hstop⟩ hr' hlt
  | signed | group | branchCondition | loopCondition =>
    obtain ⟨hr, hlt⟩ := Cursor.Reaches.next hc (ne_eof_of_admits ha (by simp) (by simp))
    exact .of_length_lt trivial hr hlt
  | print hk =>
    obtain ⟨hr, hlt⟩ := Cursor.Reaches.next hc (ne_eof_of_admits ha (by simp) (by simp))
    obtain ⟨hr', hlt'⟩ := Cursor.Reaches.next (hr.ended hc) (by rw [hk]; simp)
    exact .of_length_lt trivial (hr.trans hr') (Nat.lt_trans hlt' hlt)
  | @openingBlock c hk =>
    obtain ⟨hr, hlt⟩ := Cursor.Reaches.next hc (show c.kind ≠ .eof by rw [hk]; simp)
    exact .of_length_lt trivial hr hlt
  | branchYes hm | loopBody hm =>
    obtain ⟨hr, hlt⟩ := hm.moves_next hc (ne_eof_of_admits ha (by simp) (by simp))
    exact .of_length_lt (.inl rfl) hr hlt
  | @branchNo c c₁ c₂ a y hm hm' hk =>
    obtain ⟨hr, hlt⟩ := hm.moves_next hc (ne_eof_of_admits ha (by simp) (by simp))
    obtain ⟨-, hr', hlt'⟩ := hm'.moves (hr.ended hc) (.inl rfl) trivial
    have hr₂ := hr.trans hr'
    have hne : c₂.kind ≠ .eof := by rw [hk]; simp
    obtain ⟨hr'', hlt''⟩ := Cursor.Reaches.next (hr₂.ended hc) hne
    refine .of_length_lt ?_ (hr₂.trans hr'') (Nat.lt_trans hlt'' (Nat.lt_trans hlt' hlt))
    split
    · next hi => exact .inr (.inr (by rw [hi]; rfl))
    · exact .inl rfl
  | item c => exact ⟨trivial, .refl c, by simp only [need]; omega⟩
  | binary | assignment =>
    obtain ⟨hr, hlt⟩ := Cursor.Reaches.next hc (Grammar.ne_eof_of_joining ha.1)
    exact .of_length_lt trivial hr hlt
  | @blockItem c | @programItem c =>
    exact ⟨.inr (.inl rfl), .refl c, by simp only [need]; omega⟩
  | blockRest _ _ hm | programRest _ hm =>
    obtain ⟨-, hr, hlt⟩ := hm.moves hc (.inr (.inl rfl)) trivial
    exact .of_length_lt trivial hr hlt

theorem Makes.ready {x y : Call} (h : x.Makes y) (hx : x.Ready) : y.Ready :=
  ⟨(h.descends hx).reaches.ended hx.1, (h.descends hx).admits⟩

/-- **The calls that a call makes, and those that they make, come to an end.** -/
theorem Ready.acc {x : Call} (hx : x.Ready) : Acc (fun y x => Makes x y) x := by
  induction hn : x.goal.need x.cursor using Nat.strongRecOn generalizing x with
  | ind n ih =>
    subst hn
    exact ⟨x, fun y hy => ih _ (hy.descends hx).need_lt (hy.ready hx) rfl⟩

theorem Ready.of_reflTransGen {x y : Call} (hx : x.Ready) (h : Relation.ReflTransGen Makes x y) :
    y.Ready ∧ x.cursor.Reaches y.cursor := by
  induction h with
  | refl => exact ⟨hx, .refl _⟩
  | tail _ hy ih => exact ⟨hy.ready ih.1, ih.2.trans (hy.descends ih.1).reaches⟩

theorem ready_start (ts : List Token) (file : String) :
    Ready ⟨program [], .start ts file⟩ := ⟨Cursor.ended_start ts file, trivial⟩

end Call

/-! ## Programs -/

/-- **Reading ends.** Every call gets an answer, and none moves past the first end; one that gives a
tree moves on, unless its goal may be met by nothing. -/
theorem parse_progress (ts : List Token) (file : String) :
    (∃ r, parse ts file = some r) ∧
      (∀ (x : Call) (n : Nat),
        x.answer? (n + 1) = none ↔ ∃ y, x.Makes y ∧ y.answer? n = none) ∧
      Acc (fun y x => Call.Makes x y) ⟨.program [], .start ts file⟩ ∧
      ∀ x, Relation.ReflTransGen Call.Makes ⟨.program [], .start ts file⟩ x →
        (∃ n p, x.answer? n = some p) ∧
        ∀ n e c, x.answer? n = some (.ok e, c) →
          c.tokens = completed ts file ∧ c.index ≤ (ts.takeWhile (·.kind ≠ .eof)).length ∧
          (x.goal.Moves → x.cursor.index < c.index) := by
  have hstart := Call.ready_start ts file
  refine ⟨Option.ne_none_iff_exists'.1 (parse_ne_none ts file), Call.answer?_eq_none_iff,
    hstart.acc, fun x hx => ?_⟩
  obtain ⟨⟨hc, ha⟩, hr⟩ := hstart.of_reflTransGen hx
  refine ⟨⟨_, Option.ne_none_iff_exists'.1 (Goal.ends _ hc ha (Nat.le_refl _))⟩, ?_⟩
  intro n e c h
  have hs : x.goal.Spells x.cursor e c := Goal.Gives.spells h hc ha
  have hr' := hs.reaches ha
  refine ⟨?_, (hr.trans hr').index_le, fun hg => ?_⟩
  · rw [(hr.trans hr').tokens_eq, Cursor.tokens_start]
  · have hlt := hs.length_lt hg
    have hindex := hr'.index_add
    omega

/-- An end stands between two names, and no call moves beyond it. -/
theorem parse_progress_inner_end :
    let name : Token := ⟨.identifier, "x", .ofNat 0 1 "shell"⟩
    let ts := [name, .eof 1 "shell", name]
    let x : Call := ⟨.expr .lowest, .start ts "shell"⟩
    let c : Cursor := ⟨[name], .eof 1 "shell", [name, .eof 1 "shell"]⟩
    Relation.ReflTransGen Call.Makes ⟨.program [], .start ts "shell"⟩ x ∧
      x.answer? 2 = some (.ok (.var "x"), c) ∧ c.index ≤ 1 ∧ x.cursor.index < c.index := by
  intro name ts x c
  have hreached : Relation.ReflTransGen Call.Makes ⟨.program [], .start ts "shell"⟩ x := by
    refine .tail (.single (.programItem ?_)) (.item _)
    decide
  have hanswer : x.answer? 2 = some (.ok (.var "x"), c) := rfl
  obtain ⟨-, hle, hlt⟩ := ((parse_progress ts "shell").2.2.2 x hreached).2 2 _ c hanswer
  exact ⟨hreached, hanswer, hle, hlt trivial⟩

end ExprScript
