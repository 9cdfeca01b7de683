import Mathlib.Data.List.Forall2
import ExprScript.Proofs.Acceptance

/-!
# What reading sees of a token

Reading goes by kinds and values. The rest of a token, its span, is never looked at: it only goes
into the place of a fault. Reading is made of few steps, and each of them is alike on tokens that
are alike, so what two readings have in common is shown once for the steps.

* `Cursor.Alike`: cursors over lists of tokens that are alike one by one.
* `Parse.Alike`: two attempts made of the same steps, on tokens that are alike.
* **`Goal.read_alike`**: reading is made of these steps.
* `Parse.EndsAlike`, **`Parse.Alike.endsAlike`**: two attempts that are alike end alike.
* `parse_endsAlike`, **`parse_map`**: programs; tokens at other places are read as the same tree, or
  with the same fault at the other place.
-/

namespace ExprScript

/-- Tokens in this relation have the same kind and the same value. -/
structure Likens (R : Token → Token → Prop) : Prop where
  kind : ∀ {t t' : Token}, R t t' → t.kind = t'.kind
  value : ∀ {t t' : Token}, R t t' → t.value = t'.value

/-- The tokens of the two cursors are alike one by one, and so is where they stand. -/
structure Cursor.Alike (R : Token → Token → Prop) (c c' : Cursor) : Prop where
  before : List.Forall₂ R c.before c'.before
  current : R c.current c'.current
  after : List.Forall₂ R c.after c'.after

namespace Cursor.Alike

variable {R : Token → Token → Prop} {c c' : Cursor}

theorem advance (h : c.Alike R c') : c.advance.Alike R c'.advance := by
  obtain ⟨before, t, after⟩ := c
  obtain ⟨before', t', after'⟩ := c'
  obtain ⟨hbefore, ht, hafter⟩ := h
  dsimp only at hbefore ht hafter
  cases hafter with
  | nil => exact ⟨hbefore, ht, .nil⟩
  | cons hs hafter => exact ⟨.cons ht hbefore, hs, hafter⟩

theorem previous?_eq (h : c.Alike R c') (hR : Likens R) : c.previous? = c'.previous? := by
  obtain ⟨before, t, after⟩ := c
  obtain ⟨before', t', after'⟩ := c'
  have hbefore : List.Forall₂ R before before' := h.before
  cases hbefore with
  | nil => rfl
  | cons hs _ => exact congrArg some (hR.kind hs)

end Cursor.Alike

namespace Parse

theorem expect_bind {α : Type} (kind : Kind) (f : Token → Parse α) :
    expect kind >>= f = peek >>= fun t =>
      if t.kind = kind then next >>= f
      else failAt t (.unexpectedFor t.value ("expected " ++ kind.name)) := by
  rw [expect, expectOr, bind_assoc]
  congr 1
  funext t
  by_cases hk : t.kind = kind
  · rw [if_pos hk, if_pos hk]
  · rw [if_neg hk, if_neg hk]
    rfl

/-- The two attempts take the same steps. A step sees the current token and the kind of the one
before it, it moves on, or it ends with a fault at a token that was seen. -/
inductive Alike (R : Token → Token → Prop) : {α : Type} → Parse α → Parse α → Prop
  | pure {α : Type} (a : α) : Alike R (Pure.pure a) (Pure.pure a)
  | spent {α : Type} : Alike R (Attempt.spent : Parse α) Attempt.spent
  | fail {α : Type} {t t' : Token} (ht : R t t') {cause : Cause}
      (hc : cause.category = .malformed) : Alike R (failAt t cause : Parse α) (failAt t' cause)
  | look {α : Type} {f f' : Cursor → Parse α}
      (h : ∀ c c', R c.current c'.current → c.previous? = c'.previous? → Alike R (f c) (f' c')) :
      Alike R (Attempt.state >>= f) (Attempt.state >>= f')
  | next {α : Type} {f f' : Token → Parse α} (h : ∀ t t', R t t' → Alike R (f t) (f' t')) :
      Alike R (Parse.next >>= f) (Parse.next >>= f')
  | bind {α β : Type} {x x' : Parse α} {f f' : α → Parse β} (hx : Alike R x x')
      (hf : ∀ a, Alike R (f a) (f' a)) : Alike R (x >>= f) (x' >>= f')

namespace Alike

variable {R : Token → Token → Prop} {α : Type}

theorem peek {f f' : Token → Parse α} (h : ∀ t t', R t t' → Alike R (f t) (f' t')) :
    Alike R (Parse.peek >>= f) (Parse.peek >>= f') :=
  .look fun _ _ ht _ => h _ _ ht

theorem expect (hR : Likens R) {kind : Kind} {f f' : Token → Parse α}
    (h : ∀ t t', R t t' → Alike R (f t) (f' t')) :
    Alike R (Parse.expect kind >>= f) (Parse.expect kind >>= f') := by
  rw [expect_bind, expect_bind]
  refine peek fun t t' ht => ?_
  rw [hR.kind ht, hR.value ht]
  split
  · exact .next h
  · exact .fail ht rfl

theorem separator (hR : Likens R) : Alike R Parse.separator Parse.separator := by
  refine .look fun c c' hc hprevious => ?_
  rw [Cursor.kind, Cursor.kind, hR.kind hc, hprevious]
  split
  · exact .next fun _ _ _ => .pure ()
  · exact .pure ()
  · exact .pure ()
  · split
    · exact .pure ()
    · rw [unexpected, unexpected, hR.value hc]
      exact .fail hc rfl

theorem primary (hR : Likens R) : Alike R Parse.primary Parse.primary := by
  refine peek fun t t' ht => ?_
  have hexpr : t.expr? = t'.expr? := by rw [Token.expr?, Token.expr?, hR.kind ht, hR.value ht]
  rw [hR.kind ht]
  split
  case' h_6 =>
    rw [unexpected, unexpected, hR.value ht]
    exact .fail ht rfl
  all_goals
    refine .next fun _ _ _ => ?_
    rw [hexpr, hR.value ht]
    cases t'.expr? with
    | none => exact .fail ht rfl
    | some e => exact .pure e

theorem signed (hR : Likens R) {t t' : Token} (ht : R t t') (e : Expr) :
    Alike R (Parse.signed t e) (Parse.signed t' e) := by
  unfold Parse.signed
  rw [hR.kind ht]
  split
  · exact .pure _
  · split
    · exact .pure _
    · exact .pure _
    · exact .fail ht rfl
  · rw [unexpected, unexpected, hR.value ht]
    exact .fail ht rfl

end Alike

end Parse

theorem Goal.read_alike {R : Token → Token → Prop} (hR : Likens R) (g : Grammar) (n : Nat)
    (goal : Goal) : Parse.Alike R (goal.read g n) (goal.read g n) := by
  induction n generalizing goal with
  | zero => exact .spent
  | succ n ih =>
    rcases goal with bound | ⟨left, bound⟩ | form | ⟨form, left, power⟩ | items | items
    case expr =>
      simp only [read]
      refine .peek fun t t' ht => ?_
      rw [hR.kind ht, Parse.unexpectedFor, Parse.unexpectedFor, hR.value ht]
      cases g.opening? t'.kind with
      | none => exact .fail ht rfl
      | some form => exact .bind (ih _) fun a => ih _
    case joined =>
      simp only [read]
      refine .peek fun t t' ht => ?_
      rw [hR.kind ht]
      cases g.joining? t'.kind with
      | none => exact .pure left
      | some j =>
        dsimp only
        split
        · exact .bind (ih _) fun a => ih _
        · exact .pure left
    case opening =>
      cases form <;> simp only [read]
      case primary => exact .primary hR
      case signed => exact .next fun _ _ ht => .bind (ih _) fun e => .signed hR ht e
      case group =>
        refine .next fun _ _ _ => .peek fun t t' ht => ?_
        rw [hR.kind ht]
        split
        · exact .next fun _ _ _ => .pure _
        · exact .bind (ih _) fun e => .expect hR fun _ _ _ => .pure e
      case print =>
        exact .next fun _ _ _ => .expect hR fun _ _ _ => .bind (ih _) fun e =>
          .expect hR fun _ _ _ => .pure _
      case block => exact .expect hR fun _ _ _ => ih _
      case branch =>
        refine .next fun _ _ _ => .bind (ih _) fun a => .bind (ih _) fun y => ?_
        refine .peek fun t t' ht => ?_
        rw [hR.kind ht]
        split
        · refine .next fun _ _ _ => .peek fun s s' hs => ?_
          rw [hR.kind hs]
          exact .bind (ih _) fun o => .pure _
        · exact .pure _
      case loop => exact .next fun _ _ _ => .bind (ih _) fun _ => .bind (ih _) fun _ => .pure _
      case item => exact .bind (ih _) fun _ => .bind (.separator hR) fun _ => .pure _
    case joining =>
      cases form <;> simp only [read]
      case binary =>
        refine .next fun t t' ht => .bind (ih _) fun right => ?_
        rw [hR.kind ht, Parse.unexpected, Parse.unexpected, hR.value ht]
        cases binary? t'.kind with
        | none => exact .fail ht rfl
        | some tree => exact .pure _
      case assignment =>
        refine .next fun t t' ht => ?_
        split
        · exact .bind (ih _) fun _ => .pure _
        · exact .fail ht rfl
    case block =>
      simp only [read]
      refine .peek fun t t' ht => ?_
      rw [hR.kind ht, Parse.unexpectedFor, Parse.unexpectedFor, hR.value ht]
      split
      · exact .next fun _ _ _ => .pure _
      · split
        · exact .fail ht rfl
        · exact .bind (ih _) fun _ => ih _
    case program =>
      simp only [read]
      refine .peek fun t t' ht => ?_
      rw [hR.kind ht]
      split
      · exact .pure _
      · exact .bind (ih _) fun _ => ih _

namespace Parse

/-- Two attempts end alike: with the same value, or with faults of one cause at tokens that are
alike. -/
inductive EndsAlike (R : Token → Token → Prop) {α : Type} :
    Option (Except Fault α × Cursor) → Option (Except Fault α × Cursor) → Prop
  | spent : EndsAlike R none none
  | ok {c c' : Cursor} (a : α) (hc : c.Alike R c') :
      EndsAlike R (some (.ok a, c)) (some (.ok a, c'))
  | error {c c' : Cursor} {t t' : Token} {cause : Cause} (hc : c.Alike R c') (ht : R t t')
      (hcause : cause.category = .malformed) :
      EndsAlike R (some (.error (.located cause t.span.start), c))
        (some (.error (.located cause t'.span.start), c'))

/-- **Attempts that are alike end alike.** -/
theorem Alike.endsAlike {R : Token → Token → Prop} (hR : Likens R) {α : Type} {x x' : Parse α}
    (h : Alike R x x') {c c' : Cursor} (hc : c.Alike R c') : EndsAlike R (x c) (x' c') := by
  induction h generalizing c c' with
  | pure a => exact .ok a hc
  | spent => exact .spent
  | fail ht hcause => exact .error hc ht hcause
  | look _ ih => exact ih c c' hc.current (hc.previous?_eq hR) hc
  | next _ ih => exact ih _ _ hc.current hc.advance
  | @bind _ _ x x' f f' _ _ ihx ihf =>
    have hx := ihx hc
    rw [Attempt.bind_apply, Attempt.bind_apply]
    generalize x c = p at hx ⊢
    generalize x' c' = p' at hx ⊢
    cases hx with
    | spent => exact .spent
    | ok a hd => exact ihf a hd
    | error hd ht hcause => exact .error hd ht hcause

end Parse

/-! ## Programs -/

theorem completed_append_end {us : List Token} {t : Token} (ht : t.kind = .eof) (file : String) :
    completed (us ++ [t]) file = us ++ [t] := by
  simp [completed, ht]

/-- **Reading a program goes by kinds and values.** -/
theorem parse_endsAlike {R : Token → Token → Prop} (hR : Likens R) {ts ts' : List Token}
    {file : String} (h : List.Forall₂ R (completed ts file) (completed ts' file)) :
    Parse.EndsAlike R
      ((Goal.program []).read .standard (Cursor.start ts file).budget (.start ts file))
      ((Goal.program []).read .standard (Cursor.start ts' file).budget (.start ts' file)) := by
  rw [← Cursor.rest_start, ← Cursor.rest_start, List.forall₂_cons] at h
  have hc : (Cursor.start ts file).Alike R (.start ts' file) := by
    refine ⟨?_, h.1, h.2⟩
    rw [Cursor.before_start, Cursor.before_start]
    exact .nil
  have hbudget : (Cursor.start ts' file).budget = (Cursor.start ts file).budget := by
    rw [Cursor.budget, Cursor.budget, h.2.length_eq]
  rw [hbudget]
  exact (Goal.read_alike hR .standard _ (.program [])).endsAlike hR hc

/-- The fault with its place moved. -/
def Fault.move (g : Position → Position) (f : Fault) : Fault :=
  { f with position := f.position.map g }

theorem Parse.EndsAlike.map_fst {R : Token → Token → Prop} {g : Position → Position}
    (hR : ∀ {t t'}, R t t' → t'.span.start = g t.span.start) {α : Type}
    {p p' : Option (Except Fault α × Cursor)} (h : EndsAlike R p p') :
    p'.map (·.1) = (p.map (·.1)).map (Except.mapError (Fault.move g)) := by
  cases h with
  | spent => rfl
  | ok a => rfl
  | error _ ht =>
    rw [hR ht]
    rfl

/-- **Tokens at other places are read alike.** -/
theorem parse_map {f : Token → Token} {g : Position → Position}
    (hf : ∀ t, (f t).kind = t.kind ∧ (f t).value = t.value) {us : List Token} {e : Token}
    (he : e.kind = .eof) (hg : ∀ t ∈ us ++ [e], (f t).span.start = g t.span.start) (file : String) :
    parse ((us ++ [e]).map f) file =
      (parse (us ++ [e]) file).map (Except.mapError (Fault.move g)) := by
  let R (t t' : Token) : Prop := f t = t' ∧ t ∈ us ++ [e]
  have hR : Likens R := by
    constructor
    · rintro t t' ⟨rfl, -⟩
      exact (hf t).1.symm
    · rintro t t' ⟨rfl, -⟩
      exact (hf t).2.symm
  have htokens : List.Forall₂ R (completed (us ++ [e]) file)
      (completed ((us ++ [e]).map f) file) := by
    rw [List.map_append, List.map_singleton, completed_append_end he,
      completed_append_end ((hf e).1.trans he), ← List.map_singleton, ← List.map_append,
      List.forall₂_map_right_iff, List.forall₂_same]
    exact fun t ht => ⟨rfl, ht⟩
  refine (parse_endsAlike hR htokens).map_fst ?_
  rintro t t' ⟨rfl, ht⟩
  exact hg t ht

end ExprScript
