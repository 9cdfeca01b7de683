import ExprScript.Proofs.Likeness
import ExprScript.Proofs.Progress

/-!
# What ends at all ends within the budget

With tables other than those of the language reading need not end: a token may begin an item, which
begins with the same token again, and a form that is begun on the last token goes on to an
expression on the same token. Reading is then the same over and over, and no budget suffices. These
are the only ways not to end. Everywhere else a goal that is met moves on, and four goals stand
between two tokens, as they do with the tables of the language.

* `Cursor.Keeps`: the list stays, and the cursor is not moved back; `Goal.read_keeps`.
* **`Goal.read_moves`**: with any tables, a goal that is met passes over a token.
* `Goal.Repeats`: a goal goes on to an expression where it stands; `Goal.read_expr_of_repeats`.
* **`Goal.settles`**, `Goal.read_budget`: a goal that gets an answer within some budget gets it
  within the budget of the cursor.
-/

namespace ExprScript

/-- Where the first attempt ends, from this state, so does the second, in the same way. -/
def Attempt.ExtendsAt {σ ε α : Type} (x y : Attempt σ ε α) (s : σ) : Prop :=
  ∀ p, x s = some p → y s = some p

theorem Attempt.ExtendsAt.bind {σ ε α β : Type} {x y : Attempt σ ε α} {f g : α → Attempt σ ε β}
    {s : σ} (hx : x.ExtendsAt y s)
    (hf : ∀ a t, x s = some (.ok a, t) → (f a).ExtendsAt (g a) t) :
    (x >>= f).ExtendsAt (y >>= g) s := by
  intro p h
  rcases bind_eq_some_iff.1 h with ⟨e, t, he, rfl⟩ | ⟨a, t, ha, hp⟩
  · exact bind_of_error (hx _ he) g
  · rw [bind_of_ok (hx _ ha)]
    exact hf a t ha p hp

theorem Attempt.ExtendsAt.refl {σ ε α : Type} {x : Attempt σ ε α} {s : σ} : x.ExtendsAt x s :=
  fun _ h => h

namespace Parse

variable {α : Type} {f g : Token → Parse α} {c : Cursor}

theorem peek_extendsAt (h : (f c.current).ExtendsAt (g c.current) c) :
    Attempt.ExtendsAt (peek >>= f) (peek >>= g) c := h

theorem next_extendsAt (h : (f c.current).ExtendsAt (g c.current) c.advance) :
    Attempt.ExtendsAt (next >>= f) (next >>= g) c := h

theorem expect_extendsAt {kind : Kind} (h : (f c.current).ExtendsAt (g c.current) c.advance) :
    Attempt.ExtendsAt (expect kind >>= f) (expect kind >>= g) c :=
  .bind .refl fun t d ht => by
    obtain ⟨-, rfl, rfl⟩ := expect_ok_iff.1 ht
    exact h

end Parse

/-! ## Cursors that are moved on -/

namespace Cursor

/-- The second cursor is on the same list, and not before the first. -/
structure Keeps (c d : Cursor) : Prop where
  tokens_eq : d.tokens = c.tokens
  index_le : c.index ≤ d.index

namespace Keeps

variable {c d e : Cursor}

theorem refl (c : Cursor) : c.Keeps c := ⟨rfl, Nat.le_refl _⟩

theorem trans (h : c.Keeps d) (k : d.Keeps e) : c.Keeps e :=
  ⟨k.tokens_eq.trans h.tokens_eq, Nat.le_trans h.index_le k.index_le⟩

theorem advance (c : Cursor) : c.Keeps c.advance := ⟨tokens_advance c, index_le_index_advance c⟩

theorem length_le (h : c.Keeps d) : d.after.length ≤ c.after.length := by
  have hlen := congrArg List.length h.tokens_eq
  rw [length_tokens, length_tokens] at hlen
  have hle := h.index_le
  omega

end Keeps

theorem ended_iff (c : Cursor) : c.Ended ↔ ∃ t, c.tokens.getLast? = some t ∧ t.kind = .eof := by
  have hlast : c.tokens.getLast? = (c.current :: c.after).getLast? :=
    List.getLast?_append_of_ne_nil _ (List.cons_ne_nil _ _)
  rw [hlast]
  constructor
  · rintro ⟨v, t, hv, ht⟩
    exact ⟨t, List.getLast?_eq_some_iff.2 ⟨v, hv⟩, ht⟩
  · rintro ⟨t, hl, ht⟩
    obtain ⟨v, hv⟩ := List.getLast?_eq_some_iff.1 hl
    exact ⟨v, t, hv, ht⟩

theorem Keeps.ended {c d : Cursor} (h : c.Keeps d) (hc : c.Ended) : d.Ended := by
  rw [ended_iff] at hc ⊢
  rwa [h.tokens_eq]

theorem advance_of_last {c : Cursor} (h : c.after = []) : c.advance = c := by
  unfold advance
  rw [h]

theorem Ended.kind_of_last {c : Cursor} (hc : c.Ended) (h : c.after = []) : c.kind = .eof := by
  obtain ⟨t, hl, ht⟩ := c.ended_iff.1 hc
  have hcurrent : c.tokens.getLast? = some c.current := by simp [tokens, h]
  cases hcurrent.symm.trans hl
  exact ht

theorem length_advance_lt {c : Cursor} (h : c.after ≠ []) :
    c.advance.after.length < c.after.length := by
  obtain ⟨before, t, after⟩ := c
  cases after with
  | nil => exact absurd rfl h
  | cons s after => exact Nat.lt_succ_self _

end Cursor

theorem Parse.Alike.keeps {α : Type} {x x' : Parse α} (h : Alike Eq x x') {c d : Cursor}
    {r : Except Fault α} (hx : x c = some (r, d)) : c.Keeps d := by
  induction h generalizing c d with
  | pure | fail =>
    cases hx
    exact .refl c
  | spent => cases hx
  | look _ ih => exact ih c c rfl rfl hx
  | next _ ih => exact (Cursor.Keeps.advance c).trans (ih c.current c.current rfl hx)
  | bind _ _ ihx ihf =>
    rcases Attempt.bind_eq_some_iff.1 hx with ⟨e, t, he, ht⟩ | ⟨a, t, ha, ht⟩
    · cases ht
      exact ihx he
    · exact (ihx ha).trans (ihf a ht)

namespace Goal

variable {g : Grammar} {goal : Goal} {n : Nat} {c d : Cursor}

/-- **Reading keeps the list and does not move back**, with any tables and however it ends. -/
theorem read_keeps {r : Except Fault Expr} (h : goal.read g n c = some (r, d)) : c.Keeps d := by
  have hlikens : Likens Eq := ⟨fun h => by rw [h], fun h => by rw [h]⟩
  exact (read_alike hlikens g n goal).keeps h

/-! ## Goals that are met move on -/

theorem length_advance_le (c : Cursor) : c.advance.after.length ≤ c.after.length :=
  (Cursor.Keeps.advance c).length_le

/-- Within the budget, a goal that is met passes over a token, unless it may be met by nothing. -/
def MovesWithin (g : Grammar) (n : Nat) : Prop :=
  ∀ {goal : Goal} {c d : Cursor} {e : Expr}, c.Ended → goal.read g n c = some (.ok e, d) →
    goal.Moves → d.after.length < c.after.length

namespace MovesWithin

variable {e : Expr}

theorem opening (ih : MovesWithin g n) {form : Opening} (hc : c.Ended)
    (h : (opening form).read g (n + 1) c = some (.ok e, d)) : d.after.length < c.after.length := by
  have hnext := length_advance_le c
  have hcnext := (Cursor.Keeps.advance c).ended hc
  cases form <;> simp only [read] at h
  case primary =>
    obtain ⟨he, rfl⟩ := Parse.primary_ok_iff.1 h
    refine hc.length_advance fun hk => ?_
    rw [Token.expr?, show c.current.kind = .eof from hk] at he
    cases he
  case signed =>
    rw [Parse.next_bind_apply] at h
    obtain ⟨a, d₁, ha, h⟩ := Attempt.bind_ok_iff.1 h
    obtain ⟨-, rfl⟩ := Parse.signed_ok_iff.1 h
    have hlt := ih hcnext ha trivial
    omega
  case group =>
    rw [Parse.next_bind_apply, Parse.peek_bind_apply] at h
    split at h
    · next hk =>
      cases h
      have hlt := hcnext.length_advance (by rw [Cursor.kind, hk]; simp)
      omega
    · obtain ⟨a, d₁, ha, h⟩ := Attempt.bind_ok_iff.1 h
      obtain ⟨t, d₂, ht, ⟨⟩⟩ := Attempt.bind_ok_iff.1 h
      obtain ⟨-, -, rfl⟩ := Parse.expect_ok_iff.1 ht
      have hlt := ih hcnext ha trivial
      have hle := length_advance_le d₁
      omega
  case print =>
    rw [Parse.next_bind_apply] at h
    obtain ⟨t, d₁, ht, h⟩ := Attempt.bind_ok_iff.1 h
    obtain ⟨-, -, rfl⟩ := Parse.expect_ok_iff.1 ht
    obtain ⟨a, d₂, ha, h⟩ := Attempt.bind_ok_iff.1 h
    obtain ⟨s, d₃, hs, ⟨⟩⟩ := Attempt.bind_ok_iff.1 h
    obtain ⟨-, -, rfl⟩ := Parse.expect_ok_iff.1 hs
    have hlt := ih ((Cursor.Keeps.advance _).ended hcnext) ha trivial
    have hle := length_advance_le c.advance
    have hle' := length_advance_le d₂
    omega
  case block =>
    obtain ⟨t, d₁, ht, h⟩ := Attempt.bind_ok_iff.1 h
    obtain ⟨-, -, rfl⟩ := Parse.expect_ok_iff.1 ht
    have hlt := ih hcnext h trivial
    omega
  case branch =>
    rw [Parse.next_bind_apply] at h
    obtain ⟨a, d₁, ha, h⟩ := Attempt.bind_ok_iff.1 h
    have hlt := ih hcnext ha trivial
    obtain ⟨y, d₂, hy, h⟩ := Attempt.bind_ok_iff.1 h
    have hle := (read_keeps hy).length_le
    rw [Parse.peek_bind_apply] at h
    split at h
    · rw [Parse.next_bind_apply, Parse.peek_bind_apply] at h
      obtain ⟨o, d₃, ho, ⟨⟩⟩ := Attempt.bind_ok_iff.1 h
      have hle' := ((Cursor.Keeps.advance d₂).trans (read_keeps ho)).length_le
      omega
    · cases h
      omega
  case loop =>
    rw [Parse.next_bind_apply] at h
    obtain ⟨a, d₁, ha, h⟩ := Attempt.bind_ok_iff.1 h
    obtain ⟨b, d₂, hb, ⟨⟩⟩ := Attempt.bind_ok_iff.1 h
    have hlt := ih hcnext ha trivial
    have hle := (read_keeps hb).length_le
    omega
  case item =>
    obtain ⟨a, d₁, ha, h⟩ := Attempt.bind_ok_iff.1 h
    obtain ⟨_, d₂, hs, ⟨⟩⟩ := Attempt.bind_ok_iff.1 h
    have hlt := ih hc ha trivial
    obtain ⟨-, rfl⟩ | ⟨-, rfl, -⟩ := Parse.separator_ok_iff.1 hs
    · have hle := length_advance_le d₁
      omega
    · exact hlt

theorem joining (ih : MovesWithin g n) {form : Joining} {left : Expr} {p : Power} (hc : c.Ended)
    (h : (joining form left p).read g (n + 1) c = some (.ok e, d)) :
    d.after.length < c.after.length := by
  have hnext := length_advance_le c
  have hcnext := (Cursor.Keeps.advance c).ended hc
  cases form <;> simp only [read] at h <;> rw [Parse.next_bind_apply] at h
  case binary =>
    obtain ⟨a, d₁, ha, h⟩ := Attempt.bind_ok_iff.1 h
    have hlt := ih hcnext ha trivial
    cases hk : binary? c.current.kind with
    | none =>
      rw [hk] at h
      cases h
    | some tree =>
      rw [hk] at h
      cases h
      omega
  case assignment =>
    split at h
    · obtain ⟨a, d₁, ha, ⟨⟩⟩ := Attempt.bind_ok_iff.1 h
      have hlt := ih hcnext ha trivial
      omega
    · cases h

theorem expr (ih : MovesWithin g n) {bound : Power} (hc : c.Ended)
    (h : (expr bound).read g (n + 1) c = some (.ok e, d)) : d.after.length < c.after.length := by
  simp only [read, Parse.peek_bind_apply] at h
  cases hf : g.opening? c.current.kind with
  | none =>
    rw [hf] at h
    cases h
  | some form =>
    rw [hf] at h
    obtain ⟨a, d₁, ha, h⟩ := Attempt.bind_ok_iff.1 h
    have hlt := ih hc ha trivial
    have hle := (read_keeps h).length_le
    omega

theorem block (ih : MovesWithin g n) {items : List Expr} (hc : c.Ended)
    (h : (block items).read g (n + 1) c = some (.ok e, d)) : d.after.length < c.after.length := by
  simp only [read, Parse.peek_bind_apply] at h
  split at h
  · next hk =>
    cases h
    exact hc.length_advance (by rw [Cursor.kind, hk]; simp)
  · split at h
    · cases h
    · obtain ⟨a, d₁, ha, h⟩ := Attempt.bind_ok_iff.1 h
      have hlt := ih hc ha trivial
      have hle := (read_keeps h).length_le
      omega

end MovesWithin

/-- **With any tables, a goal that is met passes over a token.** -/
theorem read_moves (g : Grammar) (n : Nat) : MovesWithin g n := by
  induction n with
  | zero => rintro goal c d e - ⟨⟩
  | succ n ih =>
    intro goal c d e hc h hg
    cases goal with
    | expr bound => exact ih.expr hc h
    | opening form => exact ih.opening hc h
    | joining form left p => exact ih.joining hc h
    | block items => exact ih.block hc h
    | joined left bound | program items => exact hg.elim

/-- On the last token no goal is met but those that may be met by nothing. -/
theorem read_ne_ok_of_last {e : Expr} (hc : c.Ended) (hlast : c.after = []) (hg : goal.Moves) :
    goal.read g n c ≠ some (.ok e, d) := by
  intro h
  have hlt := read_moves g n hc h hg
  rw [hlast] at hlt
  exact Nat.not_lt_zero _ hlt

/-! ## Readings that do not end -/

/-- The goal goes on to an expression, here. -/
def Repeats (g : Grammar) (c : Cursor) (goal : Goal) : Prop :=
  ∃ bound, ∀ n, ∃ f, goal.read g (n + 1) c = ((expr bound).read g n >>= f) c

theorem repeats_item (g : Grammar) (c : Cursor) : (opening .item).Repeats g c := by
  refine ⟨.lowest, fun n => ?_⟩
  simp only [read]
  exact ⟨_, rfl⟩

/-- An expression whose first form goes on to an expression here is never done with it. -/
theorem read_expr_of_repeats {form : Opening} (hf : g.opening? c.kind = some form)
    (hr : (opening form).Repeats g c) (n : Nat) (bound : Power) :
    (expr bound).read g n c = none := by
  obtain ⟨bound', hr⟩ := hr
  induction n using Nat.strongRecOn generalizing bound with
  | ind n ih =>
    match n with
    | 0 => rfl
    | 1 =>
      simp only [read, Parse.peek_bind_apply, Cursor.current_kind, hf]
      rfl
    | n + 2 =>
      obtain ⟨f, hf'⟩ := hr n
      have hform : (opening form).read g (n + 1) c = none := by
        rw [hf']
        exact Attempt.bind_of_none (ih n (by omega) bound') f
      rw [read]
      simp only [Parse.peek_bind_apply, Cursor.current_kind, hf]
      exact Attempt.bind_of_none hform _

/-! ## On the last token -/

/-- The goal gets the same answer within every budget but none. -/
def Steady (g : Grammar) (c : Cursor) (goal : Goal) : Prop :=
  ∀ m n, goal.read g (m + 1) c = goal.read g (n + 1) c

theorem opening_repeats_or_steady (hc : c.Ended) (hlast : c.after = []) (form : Opening) :
    (opening form).Repeats g c ∨ (opening form).Steady g c := by
  have hstay := Cursor.advance_of_last hlast
  have hk := hc.kind_of_last hlast
  cases form
  case primary =>
    right
    intro m n
    simp only [read]
  case signed =>
    refine .inl ⟨.unary, fun n => ?_⟩
    simp only [read]
    rw [Parse.next_bind_apply, hstay]
    exact ⟨_, rfl⟩
  case group =>
    refine .inl ⟨.lowest, fun n => ?_⟩
    simp only [read]
    rw [Parse.next_bind_apply, Parse.peek_bind_apply, hstay, Cursor.current_kind, hk,
      if_neg (by simp)]
    exact ⟨_, rfl⟩
  case print =>
    right
    intro m n
    simp only [read]
    rw [Parse.next_bind_apply, Parse.next_bind_apply, hstay, Parse.expect_bind, Parse.expect_bind,
      Parse.peek_bind_apply, Parse.peek_bind_apply, Cursor.current_kind, hk, if_neg (by simp),
      if_neg (by simp)]
  case block =>
    right
    intro m n
    simp only [read]
    rw [Parse.expect_bind, Parse.expect_bind, Parse.peek_bind_apply, Parse.peek_bind_apply,
      Cursor.current_kind, hk, if_neg (by simp), if_neg (by simp)]
  case branch | loop =>
    refine .inl ⟨.lowest, fun n => ?_⟩
    simp only [read]
    rw [Parse.next_bind_apply, hstay]
    exact ⟨_, rfl⟩
  case item => exact .inl (repeats_item g c)

theorem joining_repeats_or_steady (hlast : c.after = []) (form : Joining) (left : Expr)
    (p : Power) : (joining form left p).Repeats g c ∨ (joining form left p).Steady g c := by
  have hstay := Cursor.advance_of_last hlast
  cases form
  case binary =>
    refine .inl ⟨p, fun n => ?_⟩
    simp only [read]
    rw [Parse.next_bind_apply, hstay]
    exact ⟨_, rfl⟩
  case assignment =>
    cases left
    case var x =>
      refine .inl ⟨.lowest, fun n => ?_⟩
      simp only [read]
      rw [Parse.next_bind_apply, hstay]
      exact ⟨_, rfl⟩
    all_goals
      right
      intro m n
      simp only [read]

/-- The answer of the goal, if it has one within any budget at all, is given within this one. -/
def Settles (g : Grammar) (N : Nat) (c : Cursor) (goal : Goal) : Prop :=
  ∀ n, (goal.read g n).ExtendsAt (goal.read g N) c

theorem expr_settles_of_last (hc : c.Ended) (hlast : c.after = []) (bound : Power) {N : Nat}
    (hN : 2 ≤ N) : (expr bound).Settles g N c := by
  obtain ⟨N, rfl⟩ : ∃ k, N = k + 2 := ⟨N - 2, by omega⟩
  intro n p h
  cases n with
  | zero => cases h
  | succ n =>
    cases hf : g.opening? c.kind with
    | none =>
      simp only [read, Parse.peek_bind_apply, Cursor.current_kind, hf] at h ⊢
      exact h
    | some form =>
      rcases opening_repeats_or_steady hc hlast form with hr | hs
      · rw [read_expr_of_repeats hf hr] at h
        cases h
      · rw [read] at h ⊢
        simp only [Parse.peek_bind_apply, Cursor.current_kind, hf] at h ⊢
        refine Attempt.ExtendsAt.bind (fun q hq => ?_) (fun a t ha => ?_) p h
        · cases n with
          | zero => cases hq
          | succ n => rwa [hs N n]
        · exact absurd ha (read_ne_ok_of_last hc hlast trivial)

theorem settles_of_last (hc : c.Ended) (hlast : c.after = [])
    (h : goal.Repeats g c ∨ goal.Steady g c) {N : Nat} (hN : 3 ≤ N) : goal.Settles g N c := by
  obtain ⟨N, rfl⟩ : ∃ k, N = k + 1 := ⟨N - 1, by omega⟩
  intro n p hp
  cases n with
  | zero => cases hp
  | succ n =>
    rcases h with ⟨bound, hr⟩ | hs
    · obtain ⟨f, hf⟩ := hr n
      obtain ⟨f', hf'⟩ := hr N
      rw [hf] at hp
      rw [hf']
      refine Attempt.ExtendsAt.bind (expr_settles_of_last hc hlast bound (by omega) n)
        (fun a t ha => ?_) p hp
      exact absurd ha (read_ne_ok_of_last hc hlast trivial)
    · rwa [hs N n]

theorem joined_settles_of_last (hc : c.Ended) (hlast : c.after = []) (left : Expr) (bound : Power)
    {N : Nat} (hN : 4 ≤ N) : (joined left bound).Settles g N c := by
  obtain ⟨N, rfl⟩ : ∃ k, N = k + 1 := ⟨N - 1, by omega⟩
  intro n p h
  cases n with
  | zero => cases h
  | succ n =>
    simp only [read, Parse.peek_bind_apply, Cursor.current_kind] at h ⊢
    cases hj : g.joining? c.kind with
    | none =>
      rw [hj] at h
      exact h
    | some j =>
      rw [hj] at h
      dsimp only at h ⊢
      split at h
      · next hb =>
        rw [if_pos hb]
        have hjoining : (joining j.2 left j.1).Repeats g c ∨ (joining j.2 left j.1).Steady g c :=
          joining_repeats_or_steady hlast j.2 left j.1
        refine Attempt.ExtendsAt.bind (settles_of_last hc hlast hjoining (by omega) n)
          (fun a t ha => ?_) p h
        exact absurd ha (read_ne_ok_of_last hc hlast trivial)
      · next hb =>
        rw [if_neg hb]
        exact h

theorem items_steady_of_last (hc : c.Ended) (hlast : c.after = []) (items : List Expr) :
    (block items).Steady g c ∧ (program items).Steady g c := by
  have he : c.current.kind = .eof := hc.kind_of_last hlast
  have hne : c.current.kind ≠ .closeCurly := by rw [he]; simp
  constructor
  · intro m n
    simp only [read]
    rw [Parse.peek_bind_apply, Parse.peek_bind_apply, if_neg hne, if_pos he, if_neg hne, if_pos he]
  · intro m n
    simp only [read]
    rw [Parse.peek_bind_apply, Parse.peek_bind_apply, if_pos he, if_pos he]

/-- **On the last token four goals suffice.** -/
theorem settles_last (hc : c.Ended) (hlast : c.after = []) {N : Nat} (hN : 4 ≤ N) (goal : Goal) :
    goal.Settles g N c := by
  have three : 3 ≤ N := by omega
  cases goal with
  | expr bound => exact expr_settles_of_last hc hlast bound (by omega)
  | joined left bound => exact joined_settles_of_last hc hlast left bound hN
  | opening form => exact settles_of_last hc hlast (opening_repeats_or_steady hc hlast form) three
  | joining form left p =>
    exact settles_of_last hc hlast (joining_repeats_or_steady hlast form left p) three
  | block items =>
    exact settles_of_last hc hlast (.inr (items_steady_of_last hc hlast items).1) three
  | program items =>
    exact settles_of_last hc hlast (.inr (items_steady_of_last hc hlast items).2) three

/-! ## Anywhere -/

/-- Goals are settled where their need is covered, from this budget on. -/
def SettlesWithin (g : Grammar) (N : Nat) : Prop :=
  ∀ {goal : Goal} {c : Cursor}, c.Ended → goal.need c ≤ N → goal.Settles g N c

namespace SettlesWithin

variable {N : Nat}

/-- With fewer tokens left than there were, a budget that covered any goal covers every goal. -/
theorem further (ih : SettlesWithin g N) (hc : c.Ended) (hlen : 4 * c.after.length ≤ N)
    (hk : c.Keeps d) (hlt : d.after.length < c.after.length) (goal : Goal) :
    goal.Settles g N d :=
  ih (hk.ended hc) (by have := (goal.need_bounds d).2; omega)

theorem bind (ih : SettlesWithin g N) {first : Goal} (hc : c.Ended)
    (hlen : 4 * c.after.length ≤ N) (hfirst : first.Settles g N c) (hg : first.Moves)
    (goal : Expr → Goal) (n : Nat) :
    Attempt.ExtendsAt (first.read g n >>= fun a => (goal a).read g n)
      (first.read g N >>= fun a => (goal a).read g N) c :=
  .bind (hfirst n) fun a _ ha =>
    ih.further hc hlen (read_keeps ha) (read_moves g n hc ha hg) (goal a) n

theorem expr (ih : SettlesWithin g N) (hc : c.Ended) (bound : Power)
    (hneed : (expr bound).need c ≤ N + 1) : (expr bound).Settles g (N + 1) c := by
  intro n p h
  cases n with
  | zero => cases h
  | succ n =>
    cases hf : g.opening? c.kind with
    | none =>
      simp only [read, Parse.peek_bind_apply, Cursor.current_kind, hf] at h ⊢
      exact h
    | some form =>
      by_cases hi : form = .item
      · rw [hi] at hf
        rw [read_expr_of_repeats hf (repeats_item g c)] at h
        cases h
      · have hform : (Goal.opening form).need c ≤ N := by
          cases form <;> simp only [need] at hneed ⊢ <;> first | omega | exact absurd rfl hi
        simp only [need] at hneed
        rw [read] at h ⊢
        simp only [Parse.peek_bind_apply, Cursor.current_kind, hf] at h ⊢
        exact ih.bind hc (by omega) (ih hc hform) trivial (.joined · bound) n p h

theorem joined (ih : SettlesWithin g N) (hc : c.Ended) (left : Expr) (bound : Power)
    (hneed : (joined left bound).need c ≤ N + 1) : (joined left bound).Settles g (N + 1) c := by
  simp only [need] at hneed
  intro n p h
  cases n with
  | zero => cases h
  | succ n =>
    rw [read] at h ⊢
    simp only [Parse.peek_bind_apply, Cursor.current_kind] at h ⊢
    cases hj : g.joining? c.kind with
    | none =>
      rw [hj] at h
      exact h
    | some j =>
      rw [hj] at h
      dsimp only at h ⊢
      split at h
      · next hb =>
        rw [if_pos hb]
        have hjoining : (Goal.joining j.2 left j.1).Settles g N c :=
          ih hc (by simp only [need]; omega)
        exact ih.bind hc (by omega) hjoining trivial (.joined · bound) n p h
      · next hb =>
        rw [if_neg hb]
        exact h

theorem joining (ih : SettlesWithin g N) (hc : c.Ended) (hlast : c.after ≠ []) (form : Joining)
    (left : Expr) (p : Power) (hlen : 4 * c.after.length ≤ N) :
    (joining form left p).Settles g (N + 1) c := by
  have hexpr := ih.further hc hlen (.advance c) (Cursor.length_advance_lt hlast)
  intro n
  cases n with
  | zero => rintro q ⟨⟩
  | succ n =>
    cases form <;> simp only [read]
    case binary => exact Parse.next_extendsAt (.bind (hexpr (.expr p) n) fun _ _ _ => .refl)
    case assignment =>
      refine Parse.next_extendsAt ?_
      cases left
      case var x => exact .bind (hexpr (.expr .lowest) n) fun _ _ _ => .refl
      all_goals exact .refl

/-- The forms other than an item: what they go on to comes after their first token. -/
theorem opening (ih : SettlesWithin g N) (hc : c.Ended) (hlast : c.after ≠ []) {form : Opening}
    (hi : form ≠ .item) (hlen : 4 * c.after.length ≤ N) :
    (opening form).Settles g (N + 1) c := by
  have hlt := Cursor.length_advance_lt hlast
  have further {d : Cursor} (hk : c.advance.Keeps d) (goal : Goal) : goal.Settles g N d := by
    have hle := hk.length_le
    exact ih.further hc hlen ((Cursor.Keeps.advance c).trans hk) (by omega) goal
  have hnext := Cursor.Keeps.refl c.advance
  intro n
  cases n with
  | zero => rintro q ⟨⟩
  | succ n =>
    cases form <;> simp only [read]
    case primary => exact .refl
    case signed =>
      exact Parse.next_extendsAt (.bind (further hnext (.expr .unary) n) fun _ _ _ => .refl)
    case group =>
      refine Parse.next_extendsAt (Parse.peek_extendsAt ?_)
      split
      · exact .refl
      · exact .bind (further hnext (.expr .lowest) n) fun _ _ _ => .refl
    case print =>
      refine Parse.next_extendsAt (Parse.expect_extendsAt ?_)
      exact .bind (further (.advance _) (.expr .lowest) n) fun _ _ _ => .refl
    case block => exact Parse.expect_extendsAt (further hnext (.block []) n)
    case branch =>
      refine Parse.next_extendsAt (.bind (further hnext (.expr .lowest) n) fun a d ha => ?_)
      have hd := hnext.trans (read_keeps ha)
      refine .bind (further hd (.opening .block) n) fun y d' hy => Parse.peek_extendsAt ?_
      have hd' := hd.trans (read_keeps hy)
      split
      · refine Parse.next_extendsAt (Parse.peek_extendsAt (.bind ?_ fun _ _ _ => .refl))
        exact further (hd'.trans (.advance d')) _ n
      · exact .refl
    case loop =>
      refine Parse.next_extendsAt (.bind (further hnext (.expr .lowest) n) fun a d ha => ?_)
      exact .bind (further (hnext.trans (read_keeps ha)) (.opening .block) n) fun _ _ _ => .refl
    case item => exact absurd rfl hi

theorem item (ih : SettlesWithin g N) (hc : c.Ended)
    (hneed : (Goal.opening .item).need c ≤ N + 1) :
    (Goal.opening .item).Settles g (N + 1) c := by
  simp only [need] at hneed
  intro n
  cases n with
  | zero => rintro q ⟨⟩
  | succ n =>
    simp only [read]
    exact .bind (ih hc (by simp only [need]; omega) n) fun _ _ _ => .refl

theorem items (ih : SettlesWithin g N) (hc : c.Ended) {loop : List Expr → Goal}
    {items : List Expr} (hl : (loop items).need c = 4 * c.after.length + 4)
    (hneed : (loop items).need c ≤ N + 1) (n : Nat) :
    Attempt.ExtendsAt ((Goal.opening .item).read g n >>= fun a => (loop (a :: items)).read g n)
      ((Goal.opening .item).read g N >>= fun a => (loop (a :: items)).read g N) c := by
  have hitem : (Goal.opening .item).Settles g N c := ih hc (by simp only [need]; omega)
  exact ih.bind hc (by omega) hitem trivial (fun a => loop (a :: items)) n

theorem block (ih : SettlesWithin g N) (hc : c.Ended) (items : List Expr)
    (hneed : (block items).need c ≤ N + 1) : (block items).Settles g (N + 1) c := by
  intro n
  cases n with
  | zero => rintro q ⟨⟩
  | succ n =>
    simp only [read]
    refine Parse.peek_extendsAt ?_
    split
    · exact .refl
    · split
      · exact .refl
      · exact ih.items hc rfl hneed n

theorem program (ih : SettlesWithin g N) (hc : c.Ended) (items : List Expr)
    (hneed : (program items).need c ≤ N + 1) : (program items).Settles g (N + 1) c := by
  intro n
  cases n with
  | zero => rintro q ⟨⟩
  | succ n =>
    simp only [read]
    refine Parse.peek_extendsAt ?_
    split
    · exact .refl
    · exact ih.items hc rfl hneed n

end SettlesWithin

/-- **What ends at all ends within a budget that covers the need**, and four goals on the last
token. -/
theorem settles (g : Grammar) (N : Nat) (hN : 4 ≤ N) : SettlesWithin g N := by
  induction N with
  | zero => omega
  | succ N ih =>
    intro goal c hc hneed
    by_cases hlast : c.after = []
    · exact settles_last hc hlast hN goal
    have hlen : 4 * c.after.length ≤ N := by
      have := (goal.need_bounds c).1
      omega
    have hmore := List.length_pos_iff.2 hlast
    replace ih : SettlesWithin g N := ih (by omega)
    cases goal with
    | expr bound => exact ih.expr hc bound hneed
    | joined left bound => exact ih.joined hc left bound hneed
    | opening form =>
      by_cases hi : form = .item
      · rw [hi] at hneed ⊢
        exact ih.item hc hneed
      · exact ih.opening hc hlast hi hlen
    | joining form left p => exact ih.joining hc hlast form left p hlen
    | block items => exact ih.block hc items hneed
    | program items => exact ih.program hc items hneed

/-- A goal that gets an answer at all gets it within the budget of the cursor. -/
theorem read_budget (hc : c.Ended) {p : Except Fault Expr × Cursor}
    (h : goal.read g n c = some p) : goal.read g c.budget c = some p := by
  have hneed := (goal.need_bounds c).2
  refine settles g c.budget ?_ hc ?_ n p h <;>
  · simp only [Cursor.budget]
    omega

end Goal

end ExprScript
