import ExprScript.Goal

/-!
# What a reading does

One equivalence for each form of goal: when it gives a tree and stops at a cursor, in terms of the
goals it goes on to. Proofs about reading use these and never open `Goal.read`.

* `Goal.Gives`: a goal gives a tree within a budget; `Goal.Finds`: within some budget.
* `Goal.gives_expr`, `Goal.gives_joined`, …: the equivalences.
* `Goal.read_mono`: a larger budget changes no answer.
-/

namespace ExprScript

open Attempt

theorem Parse.expect_ok_iff {kind : Kind} {c c' : Cursor} {t : Token} :
    expect kind c = some (.ok t, c') ↔ c.kind = kind ∧ t = c.current ∧ c' = c.advance := by
  rw [expect, expectOr, peek_bind_apply]
  split
  · next h => simp [Cursor.kind, h, eq_comm]
  · next h => simp [unexpectedFor, Cursor.kind, h]

theorem Parse.separator_ok_iff {c c' : Cursor} :
    separator c = some (.ok (), c') ↔ c.kind = .semicolon ∧ c' = c.advance ∨
      c.kind ≠ .semicolon ∧ c' = c ∧
        (c.kind = .closeCurly ∨ c.kind = .eof ∨ c.previous? = some .closeCurly) := by
  rw [separator, bind_of_ok (state_apply c)]
  by_cases hp : c.previous? = some .closeCurly <;> cases hk : c.kind <;>
    simp [unexpected, hp, eq_comm]

theorem Parse.primary_ok_iff {c c' : Cursor} {e : Expr} :
    primary c = some (.ok e, c') ↔ c.current.expr? = some e ∧ c' = c.advance := by
  rw [primary, peek_bind_apply]
  cases hk : c.current.kind
  case number | identifier | string | trueWord | falseWord =>
    dsimp only
    rw [next_bind_apply]
    cases c.current.expr? <;> simp [eq_comm]
  all_goals simp [Token.expr?, hk, unexpected]

/-- What a sign makes of its operand. -/
def Kind.Signs (k : Kind) (a e : Expr) : Prop :=
  k = .not ∧ e = .not a ∨
    k = .dash ∧ ((∃ i, a = .literal (.integer i) ∧ e = .literal (.integer (-i))) ∨
      ∃ x, a = .literal (.float x) ∧ e = .literal (.float (-x)))

theorem Parse.signed_ok_iff {t : Token} {a e : Expr} {c c' : Cursor} :
    signed t a c = some (.ok e, c') ↔ t.kind.Signs a e ∧ c' = c := by
  unfold signed Kind.Signs
  cases hk : t.kind
  case not => simp [eq_comm]
  case dash =>
    rcases a with v | _ | _ | _ | _ | _ | _ | _ | _ | _ | _ | _
    case literal => cases v <;> simp [eq_comm]
    all_goals simp
  all_goals simp [unexpected]

theorem Parse.expect_bind_ne_none {α : Type} {kind : Kind} {f : Token → Parse α} {c : Cursor}
    (hf : c.kind = kind → f c.current c.advance ≠ none) : (expect kind >>= f) c ≠ none := by
  refine bind_ne_none ?_ fun t c' h => ?_
  · rw [expect, expectOr, peek_bind_apply]
    split <;> simp [unexpectedFor]
  · obtain ⟨hk, rfl, rfl⟩ := expect_ok_iff.1 h
    exact hf hk

theorem Parse.separator_ne_none {c : Cursor} : separator c ≠ none := by
  rw [separator, bind_of_ok (state_apply c)]
  by_cases hp : c.previous? = some .closeCurly <;> cases c.kind <;> simp [unexpected, hp]

theorem Parse.primary_ne_none {c : Cursor} : primary c ≠ none := by
  intro h
  rw [primary, peek_bind_apply] at h
  cases hk : c.current.kind <;> cases he : c.current.expr? <;> simp [hk, he, unexpected] at h

theorem Parse.signed_ne_none {t : Token} {a : Expr} {c : Cursor} : signed t a c ≠ none := by
  unfold signed
  cases t.kind
  case dash =>
    rcases a with v | _ | _ | _ | _ | _ | _ | _ | _ | _ | _ | _
    case literal => cases v <;> simp
    all_goals simp
  all_goals simp [unexpected]

namespace Goal

/-- The goal is met within the budget, by a tree, and the cursor stops there. -/
def Gives (n : Nat) (goal : Goal) (c : Cursor) (e : Expr) (c' : Cursor) : Prop :=
  goal.read .standard n c = some (.ok e, c')

variable {n : Nat} {c c' : Cursor} {e : Expr}

-- The proofs of this module open reading by its equations, one form of goal at a time.
attribute [local simp] read

theorem not_gives_zero {goal : Goal} : ¬ goal.Gives 0 c e c' := by simp [Gives]

theorem gives_expr {bound : Power} :
    (expr bound).Gives (n + 1) c e c' ↔ ∃ form a c₁, Grammar.standard.opening? c.kind = some form ∧
      (opening form).Gives n c a c₁ ∧ (joined a bound).Gives n c₁ e c' := by
  simp only [Gives, read]
  rw [Parse.peek_bind_apply, Cursor.kind]
  cases h : Grammar.standard.opening? c.current.kind with
  | none => simp [Parse.unexpectedFor]
  | some form => simp [bind_ok_iff]

theorem gives_joined {left : Expr} {bound : Power} :
    (joined left bound).Gives (n + 1) c e c' ↔
      (¬ bound < Grammar.standard.power c.kind ∧ e = left ∧ c' = c) ∨
        ∃ p form a c₁, Grammar.standard.joining? c.kind = some (p, form) ∧ bound < p ∧
          (joining form left p).Gives n c a c₁ ∧ (joined a bound).Gives n c₁ e c' := by
  simp only [Gives, read, Grammar.power]
  rw [Parse.peek_bind_apply, Cursor.kind]
  cases h : Grammar.standard.joining? c.current.kind with
  | none => simp [Power.not_lt_lowest, eq_comm]
  | some j =>
    obtain ⟨p, form⟩ := j
    by_cases hp : bound < p
    · simp only [bind_ok_iff, hp, if_true, Option.some.injEq, Prod.mk.injEq, not_true, false_and,
        false_or]
      grind
    · simp only [hp, if_false, pure_apply]
      grind

theorem gives_primary :
    (opening .primary).Gives (n + 1) c e c' ↔ c.current.expr? = some e ∧ c' = c.advance :=
  Parse.primary_ok_iff

theorem gives_signed :
    (opening .signed).Gives (n + 1) c e c' ↔
      ∃ a, (expr .unary).Gives n c.advance a c' ∧ c.kind.Signs a e := by
  simp [Gives, bind_ok_iff, Parse.signed_ok_iff, Cursor.kind]

theorem gives_group :
    (opening .group).Gives (n + 1) c e c' ↔
      c.advance.kind = .closeParen ∧ e = .unit ∧ c' = c.advance.advance ∨
        c.advance.kind ≠ .closeParen ∧ ∃ c₁, (expr .lowest).Gives n c.advance e c₁ ∧
          c₁.kind = .closeParen ∧ c' = c₁.advance := by
  simp only [Gives, read, Cursor.kind, Parse.next_bind_apply, Parse.peek_bind_apply]
  split
  · next h => simp [h, eq_comm]
  · next h =>
    simp only [bind_ok_iff, Parse.expect_ok_iff, h, Cursor.kind, pure_apply]
    grind

theorem gives_print :
    (opening .print).Gives (n + 1) c e c' ↔
      c.advance.kind = .openParen ∧ ∃ a c₁, (expr .lowest).Gives n c.advance.advance a c₁ ∧
        c₁.kind = .closeParen ∧ e = .print a ∧ c' = c₁.advance := by
  simp only [Gives, read, Parse.next_bind_apply, bind_ok_iff, Parse.expect_ok_iff, pure_apply]
  grind

theorem gives_opening_block :
    (opening .block).Gives (n + 1) c e c' ↔
      c.kind = .openCurly ∧ (block []).Gives n c.advance e c' := by
  simp only [Gives, read, bind_ok_iff, Parse.expect_ok_iff]
  grind

theorem gives_loop :
    (opening .loop).Gives (n + 1) c e c' ↔ ∃ a b c₁, (expr .lowest).Gives n c.advance a c₁ ∧
      (opening .block).Gives n c₁ b c' ∧ e = .loop a b := by
  simp only [Gives, read, Parse.next_bind_apply, bind_ok_iff, pure_apply]
  grind

theorem gives_branch :
    (opening .branch).Gives (n + 1) c e c' ↔ ∃ a y c₁ c₂,
      (expr .lowest).Gives n c.advance a c₁ ∧ (opening .block).Gives n c₁ y c₂ ∧
        (c₂.kind ≠ .elseWord ∧ e = .branch a y .unit ∧ c' = c₂ ∨
          c₂.kind = .elseWord ∧ ∃ o, e = .branch a y o ∧
            (opening (if c₂.advance.kind = .ifWord then .branch else .block)).Gives n c₂.advance
              o c') := by
  simp only [Gives, read, Cursor.kind, Parse.next_bind_apply, bind_ok_iff]
  constructor
  · rintro ⟨a, c₁, ha, y, c₂, hy, t, c₃, ht, h⟩
    cases (Parse.peek_apply c₂).symm.trans ht
    refine ⟨a, y, c₁, c₂, ha, hy, ?_⟩
    split at h
    · next hk =>
      rw [Parse.next_bind_apply, Parse.peek_bind_apply] at h
      obtain ⟨o, c₃, ho, h⟩ := bind_ok_iff.1 h
      cases h
      exact .inr ⟨hk, o, rfl, ho⟩
    · next hk =>
      cases h
      exact .inl ⟨hk, rfl, rfl⟩
  · rintro ⟨a, y, c₁, c₂, ha, hy, h⟩
    refine ⟨a, c₁, ha, y, c₂, hy, c₂.current, c₂, rfl, ?_⟩
    rcases h with ⟨hk, rfl, rfl⟩ | ⟨hk, o, rfl, ho⟩
    · rw [if_neg hk, pure_apply]
    · rw [if_pos hk, Parse.next_bind_apply, Parse.peek_bind_apply]
      exact bind_ok_iff.2 ⟨o, c', ho, rfl⟩

theorem gives_item :
    (opening .item).Gives (n + 1) c e c' ↔
      ∃ c₁, (expr .lowest).Gives n c e c₁ ∧ Parse.separator c₁ = some (.ok (), c') := by
  simp only [Gives, read, bind_ok_iff, pure_apply]
  grind

theorem gives_binary {left : Expr} {p : Power} :
    (joining .binary left p).Gives (n + 1) c e c' ↔
      ∃ tree a, binary? c.kind = some tree ∧ (expr p).Gives n c.advance a c' ∧ e = tree left a := by
  simp only [Gives, read, Parse.next_bind_apply, bind_ok_iff, Cursor.kind]
  cases binary? c.current.kind with
  | none => simp [Parse.unexpected]
  | some tree =>
    simp only [pure_apply]
    grind

theorem gives_assignment {left : Expr} {p : Power} :
    (joining .assignment left p).Gives (n + 1) c e c' ↔
      ∃ x a, left = .var x ∧ (expr .lowest).Gives n c.advance a c' ∧ e = .assign x a := by
  simp only [Gives, read, Parse.next_bind_apply]
  cases left
  case var x =>
    simp only [bind_ok_iff, pure_apply]
    grind
  all_goals simp

theorem gives_block {items : List Expr} :
    (block items).Gives (n + 1) c e c' ↔
      c.kind = .closeCurly ∧ e = .sequence items.reverse ∧ c' = c.advance ∨
        c.kind ≠ .closeCurly ∧ c.kind ≠ .eof ∧ ∃ a c₁, (opening .item).Gives n c a c₁ ∧
          (block (a :: items)).Gives n c₁ e c' := by
  simp only [Gives, read, Parse.peek_bind_apply, Cursor.kind]
  split
  · next h => simp [h, eq_comm]
  · next h =>
    split
    · next he => simp [he, Parse.unexpectedFor]
    · next he => simp [h, he, bind_ok_iff]

theorem gives_program {items : List Expr} :
    (program items).Gives (n + 1) c e c' ↔
      c.kind = .eof ∧ e = .program items.reverse ∧ c' = c ∨
        c.kind ≠ .eof ∧ ∃ a c₁, (opening .item).Gives n c a c₁ ∧
          (program (a :: items)).Gives n c₁ e c' := by
  simp only [Gives, read, Parse.peek_bind_apply, Cursor.kind]
  split
  · next h => simp [h, eq_comm]
  · next h => simp [h, bind_ok_iff]

/-! ## Larger budgets -/

theorem read_extends (g : Grammar) (n : Nat) (goal : Goal) :
    (goal.read g n).ExtendsTo (goal.read g (n + 1)) := by
  induction n generalizing goal with
  | zero => rintro c p ⟨⟩
  | succ n ih =>
    rcases goal with bound | ⟨left, bound⟩ | form | ⟨form, left, power⟩ | items | items
    case expr =>
      simp only [read]
      refine .bind .refl fun t => ?_
      cases g.opening? t.kind with
      | none => exact .refl
      | some form => exact .bind (ih _) fun a => ih _
    case joined =>
      simp only [read]
      refine .bind .refl fun t => ?_
      cases g.joining? t.kind with
      | none => exact .refl
      | some j =>
        dsimp only
        split
        · exact .bind (ih _) fun a => ih _
        · exact .refl
    case opening =>
      cases form <;> simp only [read]
      case primary => exact .refl
      case signed => exact .bind .refl fun _ => .bind (ih _) fun _ => .refl
      case group =>
        refine .bind .refl fun _ => .bind .refl fun t => ?_
        split
        · exact .refl
        · exact .bind (ih _) fun _ => .refl
      case print => exact .bind .refl fun _ => .bind .refl fun _ => .bind (ih _) fun _ => .refl
      case block => exact .bind .refl fun _ => ih _
      case branch =>
        refine .bind .refl fun _ => .bind (ih _) fun a => .bind (ih _) fun y => ?_
        refine .bind .refl fun t => ?_
        split
        · exact .bind .refl fun _ => .bind .refl fun _ => .bind (ih _) fun _ => .refl
        · exact .refl
      case loop => exact .bind .refl fun _ => .bind (ih _) fun _ => .bind (ih _) fun _ => .refl
      case item => exact .bind (ih _) fun _ => .refl
    case joining =>
      cases form <;> simp only [read]
      case binary => exact .bind .refl fun _ => .bind (ih _) fun _ => .refl
      case assignment =>
        refine .bind .refl fun _ => ?_
        split
        · exact .bind (ih _) fun _ => .refl
        · exact .refl
    case block =>
      simp only [read]
      refine .bind .refl fun t => ?_
      split
      · exact .refl
      · split
        · exact .refl
        · exact .bind (ih _) fun _ => ih _
    case program =>
      simp only [read]
      refine .bind .refl fun t => ?_
      split
      · exact .refl
      · exact .bind (ih _) fun _ => ih _

/-- **A larger budget changes no answer.** -/
theorem read_mono {g : Grammar} {goal : Goal} {m n : Nat} (h : m ≤ n) :
    (goal.read g m).ExtendsTo (goal.read g n) := by
  induction h with
  | refl => exact .refl
  | step _ ih => exact fun c p hp => read_extends g _ goal c p (ih c p hp)

/-- Two budgets that are not spent give one answer. -/
theorem read_unique {g : Grammar} {goal : Goal} {m n : Nat} {p q : Except Fault Expr × Cursor}
    (hm : goal.read g m c = some p) (hn : goal.read g n c = some q) : p = q := by
  have hp := read_mono (Nat.le_max_left m n) c p hm
  have hq := read_mono (Nat.le_max_right m n) c q hn
  exact Option.some.inj (hp.symm.trans hq)

/-- The goal is met within some budget. -/
def Finds (goal : Goal) (c : Cursor) (e : Expr) (c' : Cursor) : Prop := ∃ n, goal.Gives n c e c'

theorem Gives.mono {goal : Goal} {m : Nat} (h : goal.Gives m c e c') (hn : m ≤ n) :
    goal.Gives n c e c' := read_mono hn c _ h

/-- Two goals that are met have a budget in common. -/
theorem Finds.both {goal₁ goal₂ : Goal} {c₁ c₁' c₂ c₂' : Cursor} {e₁ e₂ : Expr}
    (h₁ : goal₁.Finds c₁ e₁ c₁') (h₂ : goal₂.Finds c₂ e₂ c₂') :
    ∃ n, goal₁.Gives n c₁ e₁ c₁' ∧ goal₂.Gives n c₂ e₂ c₂' := by
  obtain ⟨m, hm⟩ := h₁
  obtain ⟨n, hn⟩ := h₂
  exact ⟨max m n, hm.mono (Nat.le_max_left m n), hn.mono (Nat.le_max_right m n)⟩

end Goal

end ExprScript
