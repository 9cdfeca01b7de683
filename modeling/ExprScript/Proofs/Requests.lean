import Mathlib.Logic.Relation
import ExprScript.Parser
import ExprScript.Proofs.Budget

/-!
# Any use of a parser

A parser is used by requests in any order: its tables are changed between readings, forms are read
where they do not belong, and readings are given up half-way. Through all of it the list of tokens
stays as it was, with an end at its end, and the cursor stands in it and is never moved back.

* `Parser.Step`: one request that is answered.
* `Parser.Intact`: the parser is on this list, and what it looks at stands in the list.
* `Parser.perform_keeps`, `Parser.perform_tables`: what a request does to the cursor, and to the
  tables.
* `Parser.perform_eq_none`: a request without an answer is a reading that no budget suffices for.
* **`Parser.requests_intact`**: all of this after any requests.
-/

namespace ExprScript

namespace Parser

variable {p q : Parser} {request : Request} {reply : Reply}

/-- The second parser is what an answered request leaves of the first. -/
def Step (p q : Parser) : Prop := ∃ request reply, p.perform request = some (reply, q)

/-- The parser is on the list `ts`: the place of its cursor is in the list, the current token stands
there, and the token passed over last stands before. -/
structure Intact (ts : List Token) (p : Parser) : Prop where
  tokens_eq : p.cursor.tokens = ts
  index_lt : p.cursor.index < ts.length
  current_eq : ts[p.cursor.index]? = some p.cursor.current
  previous?_eq : p.cursor.previous? =
    if p.cursor.index = 0 then none else ts[p.cursor.index - 1]?.map Token.kind

theorem intact_tokens (p : Parser) : p.Intact p.cursor.tokens :=
  ⟨rfl, p.cursor.index_lt, p.cursor.getElem?_index, p.cursor.previous?_eq⟩

/-! ## One request -/

theorem attempt_eq_some {α : Type} {x : Parse α} {f : α → Reply}
    (h : p.attempt x f = some (reply, q)) :
    ∃ r, x p.cursor = some (r, q.cursor) ∧ q.grammar = p.grammar := by
  obtain ⟨⟨r, c⟩, hx, hr⟩ := Option.map_eq_some_iff.1 h
  cases r <;> cases hr <;> exact ⟨_, hx, rfl⟩

theorem perform_expect_of_eq {kind : Kind} (h : p.cursor.kind = kind) (fault : Option Fault) :
    p.perform (.expect kind fault) =
      some (.token p.cursor.current, { p with cursor := p.cursor.advance }) := by
  have hx : Parse.expectOr kind fault p.cursor = some (.ok p.cursor.current, p.cursor.advance) := by
    rw [Parse.expectOr, Parse.peek_bind_apply, Cursor.current_kind, if_pos h, Parse.next_apply]
  simp only [perform, attempt, hx]
  rfl

theorem perform_expect_of_ne {kind : Kind} (h : p.cursor.kind ≠ kind) (fault : Option Fault) :
    ∃ f, p.perform (.expect kind fault) = some (.fault f, p) := by
  have hx : ∃ f, Parse.expectOr kind fault p.cursor = some (.error f, p.cursor) := by
    rw [Parse.expectOr, Parse.peek_bind_apply, Cursor.current_kind, if_neg h]
    cases fault with
    | none => exact ⟨_, rfl⟩
    | some f => exact ⟨f, rfl⟩
  obtain ⟨f, hf⟩ := hx
  refine ⟨f, ?_⟩
  simp only [perform, attempt, hf]
  rfl

/-- **What a request does to the cursor.** -/
theorem perform_keeps (h : p.perform request = some (reply, q)) : p.cursor.Keeps q.cursor := by
  cases request with
  | current | hasOpening | hasJoining | setOpening | setJoining =>
    cases h
    exact .refl _
  | advance =>
    cases h
    exact .advance _
  | expect kind fault =>
    by_cases hk : p.cursor.kind = kind
    · rw [perform_expect_of_eq hk] at h
      cases h
      exact .advance _
    · obtain ⟨f, hf⟩ := perform_expect_of_ne hk fault
      cases hf.symm.trans h
      exact .refl _
  | read goal =>
    obtain ⟨r, hr, -⟩ := attempt_eq_some h
    exact Goal.read_keeps hr

/-- **What a request does to the tables.** -/
theorem perform_tables (h : p.perform request = some (reply, q)) (kind : Kind) :
    (q.grammar.opening? kind = p.grammar.opening? kind ∨
      ∃ form, request = .setOpening kind form ∧ q.grammar.opening? kind = some form) ∧
    (q.grammar.joining? kind = p.grammar.joining? kind ∨
      ∃ power form, request = .setJoining kind power form ∧
        q.grammar.joining? kind = some (power, form)) := by
  cases request with
  | current | advance | hasOpening | hasJoining =>
    cases h
    exact ⟨.inl rfl, .inl rfl⟩
  | expect | read =>
    obtain ⟨-, -, hg⟩ := attempt_eq_some h
    rw [hg]
    exact ⟨.inl rfl, .inl rfl⟩
  | setOpening k form =>
    cases h
    refine ⟨?_, .inl rfl⟩
    by_cases hk : kind = k
    · exact .inr ⟨form, by rw [hk], if_pos hk⟩
    · exact .inl (if_neg hk)
  | setJoining k power form =>
    cases h
    refine ⟨.inl rfl, ?_⟩
    by_cases hk : kind = k
    · exact .inr ⟨power, form, by rw [hk], if_pos hk⟩
    · exact .inl (if_neg hk)

theorem perform_eq_none (hp : p.cursor.Ended) (h : p.perform request = none) :
    ∃ goal, request = .read goal ∧ ∀ n, goal.read p.grammar n p.cursor = none := by
  cases request with
  | current | advance | hasOpening | hasJoining | setOpening | setJoining => cases h
  | expect kind fault =>
    by_cases hk : p.cursor.kind = kind
    · rw [perform_expect_of_eq hk] at h
      cases h
    · obtain ⟨f, hf⟩ := perform_expect_of_ne hk fault
      cases hf.symm.trans h
  | read goal =>
    refine ⟨goal, rfl, fun n => ?_⟩
    have hbudget := Option.map_eq_none_iff.1 h
    cases hn : goal.read p.grammar n p.cursor with
    | none => rfl
    | some r =>
      rw [Goal.read_budget hp hn] at hbudget
      cases hbudget

/-! ## Any requests -/

theorem tokens_of_requests {g : Grammar} {tokens : List Token} {file : String}
    (h : Relation.ReflTransGen Step (start g tokens file) p) :
    p.cursor.tokens = completed tokens file := by
  induction h with
  | refl => exact Cursor.tokens_start tokens file
  | tail _ hstep ih =>
    obtain ⟨request, reply, hperform⟩ := hstep
    exact (perform_keeps hperform).tokens_eq.trans ih

/-- **No request harms a parser.** The list of tokens is kept, the cursor does not move back, and
only an entry that is to be set is changed. -/
theorem requests_intact (g : Grammar) (tokens : List Token) (file : String) :
    (∃ us t, completed tokens file = us ++ [t] ∧ t.kind = .eof) ∧
      ∀ p, Relation.ReflTransGen Step (start g tokens file) p →
        p.Intact (completed tokens file) ∧
        (∀ request, p.perform request = none →
          ∃ goal, request = .read goal ∧ ∀ n, goal.read p.grammar n p.cursor = none) ∧
        ∀ request reply q, p.perform request = some (reply, q) →
          q.Intact (completed tokens file) ∧ p.cursor.index ≤ q.cursor.index ∧
          (∀ kind, q.grammar.opening? kind = p.grammar.opening? kind ∨
            ∃ form, request = .setOpening kind form ∧ q.grammar.opening? kind = some form) ∧
          (∀ kind, q.grammar.joining? kind = p.grammar.joining? kind ∨
            ∃ power form, request = .setJoining kind power form ∧
              q.grammar.joining? kind = some (power, form)) ∧
          ∀ kind fault f, request = .expect kind fault → reply = .fault f → q = p := by
  obtain ⟨us, t, hts, ht⟩ := exists_completed_eq tokens file
  refine ⟨⟨us, t, hts, ht⟩, fun p hp => ?_⟩
  have htokens := tokens_of_requests hp
  have hended : p.cursor.Ended := by
    rw [Cursor.ended_iff, htokens, hts]
    exact ⟨t, List.getLast?_concat, ht⟩
  refine ⟨htokens ▸ p.intact_tokens, fun request h => perform_eq_none hended h, ?_⟩
  intro request reply q h
  have hkeeps := perform_keeps h
  refine ⟨(hkeeps.tokens_eq.trans htokens) ▸ q.intact_tokens, hkeeps.index_le,
    fun kind => (perform_tables h kind).1, fun kind => (perform_tables h kind).2, ?_⟩
  rintro kind fault f rfl rfl
  by_cases hk : p.cursor.kind = kind
  · rw [perform_expect_of_eq hk] at h
    cases h
  · obtain ⟨f', hf'⟩ := perform_expect_of_ne hk fault
    cases hf'.symm.trans h
    rfl

theorem requests_intact_name :
    let x : Token := ⟨.identifier, "x", .ofNat 0 1 "shell"⟩
    let p : Parser := ⟨.setOpening .empty .identifier .primary, ⟨[x], .eof 1 "shell", []⟩⟩
    let fault : Fault := .unlocated (.undeclared "x")
    Relation.ReflTransGen Step (start .empty [x] "shell") p ∧
      p.perform (.expect .semicolon (some fault)) = some (.fault fault, p) ∧
      p.Intact [x, .eof 1 "shell"] := by
  intro x p fault
  have hset : Step (start .empty [x] "shell")
      (start (.setOpening .empty .identifier .primary) [x] "shell") :=
    ⟨.setOpening .identifier .primary, .done, rfl⟩
  have hread : Step (start (.setOpening .empty .identifier .primary) [x] "shell") p :=
    ⟨.read (.expr .lowest), .tree (.var "x"), rfl⟩
  have hreach := (Relation.ReflTransGen.single hset).tail hread
  have hfault : p.perform (.expect .semicolon (some fault)) = some (.fault fault, p) := rfl
  obtain ⟨-, -, hstep⟩ := (requests_intact .empty [x] "shell").2 p hreach
  exact ⟨hreach, hfault, (hstep _ _ _ hfault).1⟩

end Parser

end ExprScript
