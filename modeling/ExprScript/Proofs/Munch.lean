import ExprScript.Proofs.Spelling
import Mathlib.Data.List.Infix

/-!
# Maximal munch

Patterns are tried in the order of a table, and the first one that matches decides. The order is
such that it also has the longest match: most patterns begin with characters of their own, a mark
comes before the marks that begin it, and a comment before the slash. So the scanner cuts a source
as maximal munch does.

* `Pattern.Accepts`: the texts of each form.
* `Pattern.accepts_longest`, `Pattern.Accepts.begins_longest`: a pattern picks the longest beginning
  of a text that has its form.
* **`Pattern.longest_lt_of_first?`**: the first pattern that matches picks more than any other.
* `Munch`, `munch_iff`: one piece of a text.
* `Pattern.Stands`, `Segmented`: the pieces of a text and the tokens they stand for.
* `exists_segmented`, `Segmented.scan_eq`: the pieces of a text are those of the scanner.
* **`tokenize_munches`**: the tokens of a source are those of its pieces.
-/

namespace ExprScript

/-! ## The texts of a form -/

/-- The text between the quotes of a string literal. A backslash takes the next character with it,
which may be any but a newline, and a quote stands only after such a backslash. -/
inductive QuotedBody : List Char → Prop
  | nil : QuotedBody []
  | plain {c : Char} {cs : List Char} (hq : c ≠ '"') (hb : c ≠ '\\') (h : QuotedBody cs) :
      QuotedBody (c :: cs)
  | pair {c : Char} {cs : List Char} (hc : c ≠ '\n') (h : QuotedBody cs) :
      QuotedBody ('\\' :: c :: cs)

theorem QuotedBody.untilQuote? {body : List Char} (h : QuotedBody body) (rest : List Char) :
    untilQuote? (body ++ '"' :: rest) = some (body ++ ['"']) := by
  induction h with
  | nil => simp [ExprScript.untilQuote?]
  | plain hq hb _ ih =>
    rw [List.cons_append, ExprScript.untilQuote?.eq_def]
    split <;> simp_all
  | pair hc _ ih =>
    rw [List.cons_append, List.cons_append, ExprScript.untilQuote?, if_neg hc, ih]
    rfl

theorem quotedBody_of_untilQuote? {cs t : List Char} (h : untilQuote? cs = some t) :
    ∃ body, t = body ++ ['"'] ∧ QuotedBody body := by
  fun_induction untilQuote? cs generalizing t with
  | case1 | case3 | case4 => simp at h
  | case2 => exact ⟨[], (Option.some.inj h).symm, .nil⟩
  | case5 c cs hc ih =>
    obtain ⟨u, hu, rfl⟩ := Option.map_eq_some_iff.1 h
    obtain ⟨body, rfl, hbody⟩ := ih hu
    exact ⟨'\\' :: c :: body, rfl, .pair hc hbody⟩
  | case6 c cs hq hb₁ hb₂ ih =>
    obtain ⟨u, hu, rfl⟩ := Option.map_eq_some_iff.1 h
    obtain ⟨body, rfl, hbody⟩ := ih hu
    refine ⟨c :: body, rfl, .plain hq (fun hc => ?_) hbody⟩
    cases cs with
    | nil => exact hb₁ hc rfl
    | cons d ds => exact hb₂ d ds hc rfl

namespace Pattern

/-- The texts that have the form of the pattern. -/
inductive Accepts : Pattern → List Char → Prop
  | word {c : Char} {cs : List Char} (hc : isWordStart c = true)
      (hcs : ∀ d ∈ cs, isWordChar d = true) : Accepts word (c :: cs)
  | whole {cs : List Char} (h : IsDigits cs) : Accepts number cs
  | decimal {as bs : List Char} (ha : IsDigits as) (hb : IsDigits bs) :
      Accepts number (as ++ '.' :: bs)
  | blanks {cs : List Char} (hne : cs ≠ []) (h : ∀ c ∈ cs, Text.isBlank c = true) :
      Accepts blanks cs
  | quoted {body : List Char} (h : QuotedBody body) : Accepts quoted ('"' :: (body ++ ['"']))
  | comment {cs : List Char} (h : '\n' ∉ cs) : Accepts comment ('/' :: '/' :: cs)
  | mark (kind : Kind) (spelling : String) : Accepts (mark kind spelling) spelling.toList

theorem longest_quoted {cs : List Char} (h : quoted.longest cs ≠ []) :
    ∃ body, quoted.longest cs = '"' :: (body ++ ['"']) ∧ QuotedBody body := by
  cases cs with
  | nil => exact absurd rfl h
  | cons c cs =>
    by_cases hc : c = '"'
    · subst hc
      simp only [longest] at h ⊢
      cases hq : untilQuote? cs with
      | none => simp [hq] at h
      | some t =>
        obtain ⟨body, rfl, hbody⟩ := quotedBody_of_untilQuote? hq
        exact ⟨body, rfl, hbody⟩
    · simp [longest, hc] at h

theorem longest_comment {cs : List Char} (h : comment.longest cs ≠ []) :
    ∃ ds, comment.longest cs = '/' :: '/' :: ds ∧ '\n' ∉ ds := by
  rcases cs with _ | ⟨c, _ | ⟨d, cs⟩⟩
  · exact absurd rfl h
  · simp [longest] at h
  · by_cases hcd : c = '/' ∧ d = '/'
    · obtain ⟨rfl, rfl⟩ := hcd
      refine ⟨_, rfl, fun hmem => ?_⟩
      simpa using List.all_eq_true.1 List.all_takeWhile _ hmem
    · refine absurd ?_ h
      rw [longest] <;> simp_all

theorem longest_mark {kind : Kind} {spelling : String} {cs : List Char}
    (h : (mark kind spelling).longest cs ≠ []) :
    (mark kind spelling).longest cs = spelling.toList ∧ spelling.toList <+: cs := by
  simp only [longest] at h ⊢
  split at h
  · next hs => exact ⟨if_pos hs, by simpa using hs⟩
  · exact absurd rfl h

/-- What a pattern picks has its form. -/
theorem accepts_longest {p : Pattern} {cs : List Char} (h : p.longest cs ≠ []) :
    p.Accepts (p.longest cs) := by
  cases p with
  | word =>
    obtain ⟨c, ds, heq, hc, hds⟩ := longest_word h
    rw [heq]
    exact .word hc hds
  | number =>
    obtain hw | ⟨as, bs, heq, ha, hb⟩ := longest_number h
    · exact .whole hw
    · rw [heq]
      exact .decimal ha hb
  | blanks => exact .blanks h fun c hc => List.all_eq_true.1 List.all_takeWhile c hc
  | quoted =>
    obtain ⟨body, heq, hbody⟩ := longest_quoted h
    rw [heq]
    exact .quoted hbody
  | comment =>
    obtain ⟨ds, heq, hds⟩ := longest_comment h
    rw [heq]
    exact .comment hds
  | mark kind spelling =>
    rw [(longest_mark h).1]
    exact .mark kind spelling

theorem takeWhile_decimal {as : List Char} (ha : IsDigits as) (rest : List Char) :
    (as ++ '.' :: rest).takeWhile Char.isDigit = as ∧
      (as ++ '.' :: rest).dropWhile Char.isDigit = '.' :: rest := by
  refine span_append ha.2 fun c cs h => ?_
  cases h
  rfl

/-- A text of the form that begins another text begins what is picked from it. -/
theorem Accepts.begins_longest {p : Pattern} {w : List Char} (h : p.Accepts w)
    (rest : List Char) : w <+: p.longest (w ++ rest) := by
  cases h with
  | word hc hcs =>
    rw [List.cons_append, longest, if_pos hc, List.takeWhile_append_of_pos hcs, ← List.cons_append]
    exact List.prefix_append _ _
  | whole h =>
    have hne : (w ++ rest.takeWhile Char.isDigit).isEmpty = false := by simp [h.1]
    simp only [longest, List.takeWhile_append_of_pos h.2, hne, Bool.false_eq_true, if_false]
    split
    · split
      · exact List.prefix_append _ _
      · rw [List.append_assoc]
        exact List.prefix_append _ _
    · exact List.prefix_append _ _
  | @decimal as bs ha hb =>
    obtain ⟨htake, hdrop⟩ := takeWhile_decimal ha (bs ++ rest)
    have hne : as.isEmpty = false := by simp [ha.1]
    have hne' : (bs ++ rest.takeWhile Char.isDigit).isEmpty = false := by simp [hb.1]
    rw [List.append_assoc, List.cons_append]
    simp only [longest, htake, hdrop, List.takeWhile_append_of_pos hb.2, hne, hne',
      Bool.false_eq_true, if_false]
    rw [← List.cons_append, ← List.append_assoc]
    exact List.prefix_append _ _
  | blanks _ h =>
    rw [longest, List.takeWhile_append_of_pos h]
    exact List.prefix_append _ _
  | quoted h =>
    rw [List.cons_append, List.append_assoc, List.singleton_append, longest, h.untilQuote?]
    exact List.prefix_rfl
  | comment h =>
    rw [List.cons_append, List.cons_append, longest, List.takeWhile_append_of_pos,
      ← List.cons_append, ← List.cons_append]
    · exact List.prefix_append _ _
    · intro c hc
      simpa using ne_of_mem_of_not_mem hc h
  | mark kind spelling => rw [longest, if_pos (by simp)]

/-- **A pattern picks the longest beginning that has its form.** -/
theorem Accepts.length_le {p : Pattern} {w cs : List Char} (h : p.Accepts w) (hw : w <+: cs) :
    w.length ≤ (p.longest cs).length := by
  obtain ⟨rest, rfl⟩ := hw
  exact (h.begins_longest rest).length_le

/-! ## The order of the table -/

/-- The sorts of characters that a text may begin with. -/
inductive Initial where
  | letter
  | digit
  | blank
  | quote
  | other
  deriving DecidableEq

/-- What the texts of a pattern begin with. -/
def initial : Pattern → Initial
  | word => .letter
  | number => .digit
  | blanks => .blank
  | quoted => .quote
  | comment | mark .. => .other

/-- The sort of a character. -/
def Initial.ofChar (c : Char) : Initial :=
  if isWordStart c then .letter
  else if c.isDigit then .digit
  else if Text.isBlank c then .blank
  else if c = '"' then .quote
  else .other

theorem Initial.ofChar_of_isBlank {c : Char} (h : Text.isBlank c = true) :
    Initial.ofChar c = .blank := by
  have hw : isWordStart c = false := by
    rw [Bool.eq_false_iff]
    intro hw
    have := toNat_of_isWordStart hw
    rw [isBlank_of_toNat (by omega) (by omega)] at h
    cases h
  have hd : c.isDigit = false := by
    rw [Bool.eq_false_iff]
    intro hd
    have := toNat_of_isDigit hd
    rw [isBlank_of_toNat (by omega) (by omega)] at h
    cases h
  simp [Initial.ofChar, hw, hd, h]

/-- The first character of a text tells how its pattern begins. -/
theorem Accepts.ofChar_eq {p : Pattern} (hp : p ∈ table) {c : Char} {cs : List Char}
    (h : p.Accepts (c :: cs)) : Initial.ofChar c = p.initial := by
  have digit (hd : c.isDigit = true) : Initial.ofChar c = .digit := by
    simp [Initial.ofChar, isWordStart_of_isDigit hd, hd]
  generalize hw : c :: cs = w at h
  cases h with
  | word hc =>
    cases hw
    simp [Initial.ofChar, hc, initial]
  | whole h =>
    subst hw
    exact digit (h.2 c (by simp))
  | decimal ha =>
    obtain ⟨d, ds, rfl⟩ := List.exists_cons_of_ne_nil ha.1
    cases hw
    exact digit (ha.2 c (by simp))
  | blanks _ h =>
    subst hw
    exact Initial.ofChar_of_isBlank (h c (by simp))
  | quoted =>
    cases hw
    rfl
  | comment =>
    cases hw
    rfl
  | mark kind spelling =>
    have hx := check_of_mark_mem_table
      (fun _ s => s.toList.head?.all fun c => Initial.ofChar c = .other) (by decide) hp
    rw [← hw] at hx
    simpa [initial] using hx

/-- A reason why `p`, where it matches, picks more than `q`: the two begin differently, or `q` is a
mark that `p` does not begin. -/
def outdoes : Pattern → Pattern → Bool
  | mark _ s, mark _ t => !s.toList.isPrefixOf t.toList
  | comment, mark _ t => t.toList.length < 2 || t.toList.head? ≠ some '/'
  | p, q => p.initial ≠ q.initial

theorem table_outdoes : table.Pairwise fun p q => p.outdoes q = true := by decide

theorem initial_eq_of_longest {p q : Pattern} (hp : p ∈ table) (hq : q ∈ table) {cs : List Char}
    (h : p.longest cs ≠ []) (h' : q.longest cs ≠ []) : p.initial = q.initial := by
  have begin_eq {p : Pattern} (hp : p ∈ table) (h : p.longest cs ≠ []) :
      ∃ c ds, cs = c :: ds ∧ Initial.ofChar c = p.initial := by
    have ha := accepts_longest h
    obtain ⟨rest, hrest⟩ := p.exists_longest_append cs
    obtain ⟨c, ds, hc⟩ := List.exists_cons_of_ne_nil h
    rw [hc] at ha hrest
    exact ⟨c, ds ++ rest, hrest.symm, ha.ofChar_eq hp⟩
  obtain ⟨c, ds, rfl, hc⟩ := begin_eq hp h
  obtain ⟨d, es, hd, hd'⟩ := begin_eq hq h'
  cases hd
  exact hc.symm.trans hd'

theorem longest_lt_of_outdoes {p q : Pattern} (hp : p ∈ table) (hq : q ∈ table)
    (hpq : p.outdoes q = true) {cs : List Char} (h : p.longest cs ≠ []) :
    (q.longest cs).length < (p.longest cs).length := by
  by_cases h' : q.longest cs = []
  · rw [h']
    exact List.length_pos_iff.2 h
  have hinitial := initial_eq_of_longest hp hq h h'
  revert hpq
  fun_cases outdoes p q with
  | case1 _ s _ t =>
    intro hpq
    obtain ⟨hs, hs'⟩ := longest_mark h
    obtain ⟨ht, ht'⟩ := longest_mark h'
    have hst : ¬ s.toList <+: t.toList := by
      intro hpre
      rw [List.isPrefixOf_iff_prefix.2 hpre] at hpq
      cases hpq
    have hts := (List.prefix_or_prefix_of_prefix hs' ht').resolve_left hst
    rw [hs, ht]
    refine Nat.lt_of_le_of_ne hts.length_le fun hlen => hst ?_
    rw [hts.eq_of_length hlen]
  | case2 _ t =>
    intro hpq
    obtain ⟨ds, hds, -⟩ := longest_comment h
    obtain ⟨ht, ht'⟩ := longest_mark h'
    obtain ⟨rest, hrest⟩ := comment.exists_longest_append cs
    rw [hds] at hrest
    rw [hds, ht]
    rcases Bool.or_eq_true_iff.1 hpq with hlen | hhead
    · have : t.toList.length < 2 := by simpa using hlen
      simp only [List.length_cons]
      omega
    · obtain ⟨c, cs', hc⟩ := List.exists_cons_of_ne_nil (ht ▸ h')
      rw [hc, ← hrest] at ht'
      have := (List.cons_prefix_cons.1 ht').1
      simp [hc, this] at hhead
  | case3 => exact fun hpq => absurd hinitial (by simpa using hpq)

/-- **The first pattern that matches picks more than any other.** -/
theorem longest_lt_of_first? {p q : Pattern} {cs : List Char} (h : first? cs = some p)
    (hq : q ∈ table) (hne : q ≠ p) : (q.longest cs).length < (p.longest cs).length := by
  have hp := List.mem_of_find?_eq_some h
  have hpos := longest_ne_nil_of_first? h
  obtain ⟨-, before, after, htable, hbefore⟩ := List.find?_eq_some_iff_append.1 h
  have hafter : ∀ q ∈ after, p.outdoes q = true := by
    have := table_outdoes
    rw [htable, List.pairwise_append, List.pairwise_cons] at this
    exact this.2.1.1
  have hmem := hq
  rw [htable, List.mem_append, List.mem_cons] at hmem
  rcases hmem with hmem | hmem | hmem
  · have hnil : q.longest cs = [] := by simpa using hbefore q hmem
    rw [hnil]
    exact List.length_pos_iff.2 hpos
  · exact absurd hmem hne
  · exact longest_lt_of_outdoes hp hq (hafter q hmem) hpos

theorem Accepts.ne_nil {p : Pattern} (hp : p ∈ table) {w : List Char} (h : p.Accepts w) :
    w ≠ [] := by
  cases h with
  | word | quoted | comment => simp
  | whole h => exact h.1
  | decimal => simp
  | blanks hne => exact hne
  | mark kind spelling =>
    have := check_of_mark_mem_table (fun _ s => !s.toList.isEmpty) (by decide) hp
    simpa using this

end Pattern

/-! ## Pieces of a text -/

/-- The text begins with one of the form. -/
def Pattern.Matches (p : Pattern) (cs : List Char) : Prop := ∃ w, p.Accepts w ∧ w <+: cs

theorem Pattern.matches_iff {p : Pattern} (hp : p ∈ table) {cs : List Char} :
    p.Matches cs ↔ p.longest cs ≠ [] := by
  constructor
  · rintro ⟨w, hw, hwcs⟩ hnil
    have hlen := hw.length_le hwcs
    rw [hnil] at hlen
    exact hw.ne_nil hp (List.length_eq_zero_iff.1 (Nat.le_zero.1 hlen))
  · intro h
    exact ⟨_, accepts_longest h, p.exists_longest_append cs⟩

/-- No piece can be taken from a text that is not at its end. -/
def Stuck (cs : List Char) : Prop := cs ≠ [] ∧ ∀ p ∈ Pattern.table, ¬ p.Matches cs

/-- The pattern `p` takes the piece `w` from the beginning of the text `cs`. The piece has its form,
and no pattern of the table has a longer one. -/
structure Munch (cs : List Char) (p : Pattern) (w : List Char) : Prop where
  mem : p ∈ Pattern.table
  accepts : p.Accepts w
  begins : w <+: cs
  longest : ∀ q ∈ Pattern.table, ∀ v, q.Accepts v → v <+: cs → v.length ≤ w.length

theorem munch_longest {cs : List Char} {p : Pattern} (h : Pattern.first? cs = some p) :
    Munch cs p (p.longest cs) where
  mem := List.mem_of_find?_eq_some h
  accepts := Pattern.accepts_longest (Pattern.longest_ne_nil_of_first? h)
  begins := p.exists_longest_append cs
  longest := by
    intro q hq v hv hvcs
    refine (hv.length_le hvcs).trans ?_
    by_cases hqp : q = p
    · rw [hqp]
    · exact (Pattern.longest_lt_of_first? h hq hqp).le

/-- **The piece that maximal munch takes** is the one that the first pattern picks. -/
theorem munch_iff {cs : List Char} {p : Pattern} {w : List Char} :
    Munch cs p w ↔ Pattern.first? cs = some p ∧ p.longest cs = w := by
  constructor
  · intro h
    have hle := h.accepts.length_le h.begins
    have hpos := (Pattern.matches_iff h.mem).1 ⟨w, h.accepts, h.begins⟩
    have hlen := h.longest p h.mem _ (Pattern.accepts_longest hpos) (p.exists_longest_append cs)
    refine ⟨?_, ?_⟩
    · cases hq : Pattern.first? cs with
      | none =>
        have := List.find?_eq_none.1 hq p h.mem
        simp [hpos] at this
      | some q =>
        by_cases hqp : q = p
        · rw [hqp]
        · have hm := munch_longest hq
          have := h.longest q hm.mem _ hm.accepts hm.begins
          have := Pattern.longest_lt_of_first? hq h.mem (Ne.symm hqp)
          omega
    · exact List.IsPrefix.eq_of_length
        (List.prefix_of_prefix_length_le (p.exists_longest_append cs) h.begins hlen)
        (Nat.le_antisymm hlen hle)
  · rintro ⟨h, rfl⟩
    exact munch_longest h

theorem stuck_iff {cs : List Char} : Stuck cs ↔ cs ≠ [] ∧ Pattern.first? cs = none := by
  rw [Stuck, Pattern.first?, List.find?_eq_none]
  refine and_congr_right fun _ => forall₂_congr fun p hp => ?_
  rw [Pattern.matches_iff hp]
  simp

/-! ## Tokens of the pieces -/

/-- The reserved words and their kinds. -/
def reservedKinds : List (String × Kind) :=
  [("if", .ifWord), ("else", .elseWord), ("while", .whileWord), ("print", .printWord),
    ("true", .trueWord), ("false", .falseWord)]

theorem mem_reservedKinds {x : String} {kind : Kind} :
    (x, kind) ∈ reservedKinds ↔ x ∈ reserved ∧ kind = .ofWord x := by
  simp only [reservedKinds, reserved, List.mem_cons, Prod.mk.injEq, List.not_mem_nil, or_false]
  constructor
  · rintro (⟨rfl, rfl⟩ | ⟨rfl, rfl⟩ | ⟨rfl, rfl⟩ | ⟨rfl, rfl⟩ | ⟨rfl, rfl⟩ | ⟨rfl, rfl⟩) <;>
      simp [Kind.ofWord]
  · rintro ⟨rfl | rfl | rfl | rfl | rfl | rfl, rfl⟩ <;> simp [Kind.ofWord]

namespace Pattern

/-- The lexeme that a piece stands for. A word is reserved only as a whole. -/
inductive Stands : Pattern → List Char → Lexeme → Prop
  | reserved {x : String} {kind : Kind} (h : (x, kind) ∈ reservedKinds) :
      Stands word x.toList ⟨kind, x⟩
  | name {x : String} (h : x ∉ ExprScript.reserved) : Stands word x.toList ⟨.identifier, x⟩
  | number (x : String) : Stands number x.toList ⟨.number, x⟩
  | quoted (body : List Char) :
      Stands quoted ('"' :: (body ++ ['"'])) ⟨.string, .ofList (Escape.decode body)⟩
  | mark (kind : Kind) (x : String) : Stands (mark kind x) x.toList ⟨kind, x⟩

/-- The pieces that stand for nothing. -/
def Skipped (p : Pattern) : Prop := p = blanks ∨ p = comment

theorem stands_or_skipped {p : Pattern} {w : List Char} (h : p.Accepts w) :
    (∃ x, p.Stands w x) ∨ p.Skipped := by
  have number (cs : List Char) : Pattern.number.Stands cs ⟨.number, .ofList cs⟩ := by
    simpa using Stands.number (.ofList cs)
  cases h with
  | @word c cs =>
    left
    rw [← String.toList_ofList (l := c :: cs)]
    by_cases hx : String.ofList (c :: cs) ∈ reserved
    · exact ⟨_, .reserved (mem_reservedKinds.2 ⟨hx, rfl⟩)⟩
    · exact ⟨_, .name hx⟩
  | whole => exact .inl ⟨_, number _⟩
  | decimal => exact .inl ⟨_, number _⟩
  | quoted => exact .inl ⟨_, .quoted _⟩
  | mark kind spelling => exact .inl ⟨_, .mark kind spelling⟩
  | blanks => exact .inr (.inl rfl)
  | comment => exact .inr (.inr rfl)

theorem Stands.token?_eq {p : Pattern} {w : List Char} {x : Lexeme} (h : p.Stands w x) :
    p.token? w = some (x.kind, x.value) := by
  cases h with
  | reserved h => simp [token?, (mem_reservedKinds.1 h).2]
  | name h => simp [token?, ofWord_eq_identifier.2 h]
  | number x => simp [token?]
  | quoted body => simp [token?]
  | mark => rfl

theorem Skipped.token?_eq {p : Pattern} (h : p.Skipped) (w : List Char) : p.token? w = none := by
  obtain rfl | rfl := h <;> rfl

end Pattern

/-- The token of a lexeme in the `w` bytes from offset `n` on. -/
def Lexeme.token (x : Lexeme) (file : String) (n : Nat) (w : Nat) : Token :=
  ⟨x.kind, x.value, .ofNat n (n + w) file⟩

/-- The text `cs` at offset `n` is cut into pieces, up to `cs'` at offset `n'`, and the pieces stand
for the tokens `ts`. -/
inductive Segmented (file : String) : Nat → List Char → List Token → Nat → List Char → Prop
  | nil (n : Nat) (cs : List Char) : Segmented file n cs [] n cs
  | token {n n' : Nat} {p : Pattern} {w rest cs' : List Char} {x : Lexeme} {ts : List Token}
      (hm : Munch (w ++ rest) p w) (hx : p.Stands w x)
      (hs : Segmented file (n + Text.width w) rest ts n' cs') :
      Segmented file n (w ++ rest) (x.token file n (Text.width w) :: ts) n' cs'
  | skip {n n' : Nat} {p : Pattern} {w rest cs' : List Char} {ts : List Token}
      (hm : Munch (w ++ rest) p w) (hp : p.Skipped)
      (hs : Segmented file (n + Text.width w) rest ts n' cs') :
      Segmented file n (w ++ rest) ts n' cs'

theorem Munch.ne_nil {cs : List Char} {p : Pattern} {w : List Char} (h : Munch cs p w) : w ≠ [] :=
  h.accepts.ne_nil h.mem

/-- **Every text is cut into pieces**, up to its end or to where no pattern matches. -/
theorem exists_segmented (file : String) (n : Nat) (cs : List Char) :
    ∃ ts n' cs', Segmented file n cs ts n' cs' ∧ (cs' = [] ∨ Stuck cs') := by
  induction hlen : cs.length using Nat.strongRecOn generalizing n cs with
  | ind k ih =>
    by_cases hcs : cs = []
    · exact ⟨[], n, cs, .nil n cs, .inl hcs⟩
    cases hp : Pattern.first? cs with
    | none => exact ⟨[], n, cs, .nil n cs, .inr (stuck_iff.2 ⟨hcs, hp⟩)⟩
    | some p =>
      have hm := munch_longest hp
      obtain ⟨rest, hrest⟩ := hm.begins
      generalize p.longest cs = w at hm hrest
      subst hrest
      have hlt : rest.length < k := by
        have := List.length_pos_iff.2 hm.ne_nil
        rw [← hlen, List.length_append]
        omega
      obtain ⟨ts, n', cs', hs, hend⟩ := ih _ hlt (n + Text.width w) rest rfl
      obtain ⟨x, hx⟩ | hskip := Pattern.stands_or_skipped hm.accepts
      · exact ⟨_, n', cs', .token hm hx hs, hend⟩
      · exact ⟨ts, n', cs', .skip hm hskip hs, hend⟩

theorem segmented_cases (file source : String) :
    (∃ ts n, Segmented file 0 source.toList ts n []) ∨
      ∃ ts n c cs, Segmented file 0 source.toList ts n (c :: cs) ∧ Stuck (c :: cs) := by
  obtain ⟨ts, n, cs, hs, rfl | hstuck⟩ := exists_segmented file 0 source.toList
  · exact .inl ⟨ts, n, hs⟩
  · obtain ⟨c, cs, rfl⟩ := List.exists_cons_of_ne_nil hstuck.1
    exact .inr ⟨ts, n, c, cs, hs, hstuck⟩

/-! ## The scanner -/

theorem Munch.scan_eq {p : Pattern} {w rest : List Char} (h : Munch (w ++ rest) p w)
    (file : String) (n : Nat) :
    (Reader.mk file n (w ++ rest)).scan =
      (Reader.mk file (n + Text.width w) rest).scan.map
        ((Reader.mk file n (w ++ rest)).emit p ++ ·) := by
  obtain ⟨hfirst, hlongest⟩ := munch_iff.1 h
  have hpast : (Reader.mk file n (w ++ rest)).past p = ⟨file, n + Text.width w, rest⟩ := by
    simp [Reader.past, Reader.advance, hlongest, Text.dropBytes_append]
  rw [Reader.scan_eq, if_neg (by simp [h.ne_nil])]
  dsimp only
  rw [hfirst, ← hpast]

theorem Munch.emit_eq {p : Pattern} {w rest : List Char} (h : Munch (w ++ rest) p w)
    (file : String) (n : Nat) :
    (∀ x, p.Stands w x →
      (Reader.mk file n (w ++ rest)).emit p = [x.token file n (Text.width w)]) ∧
    (p.Skipped → (Reader.mk file n (w ++ rest)).emit p = []) := by
  have hlongest := (munch_iff.1 h).2
  refine ⟨fun x hx => ?_, fun hp => ?_⟩
  · simp [Reader.emit, hlongest, hx.token?_eq, Lexeme.token, Reader.span]
  · simp [Reader.emit, hlongest, hp.token?_eq]

/-- **The scanner reads the pieces one by one.** -/
theorem Segmented.scan_eq {file : String} {n n' : Nat} {cs cs' : List Char} {ts : List Token}
    (h : Segmented file n cs ts n' cs') :
    (Reader.mk file n cs).scan = (Reader.mk file n' cs').scan.map (ts ++ ·) := by
  induction h with
  | nil n cs => cases (Reader.mk file n cs).scan <;> rfl
  | @token n n' p w rest cs' x ts hm hx _ ih =>
    rw [hm.scan_eq, (hm.emit_eq file n).1 x hx, ih]
    cases (Reader.mk file n' cs').scan <;> rfl
  | @skip n n' p w rest cs' ts hm hp _ ih =>
    rw [hm.scan_eq, (hm.emit_eq file n).2 hp, ih]
    cases (Reader.mk file n' cs').scan <;> rfl

theorem Segmented.tokenize_eq_ok {source : String} {file : Option String} {ts : List Token}
    {n : Nat} (h : Segmented (file.getD unnamedSource) 0 source.toList ts n []) :
    tokenize source file = .ok (ts ++ [Token.eof (.ofNat n) (file.getD unnamedSource)]) := by
  rw [tokenize, Reader.start, h.scan_eq, Reader.scan_eq]
  rfl

theorem Segmented.tokenize_eq_error {source : String} {file : Option String} {ts : List Token}
    {n : Nat} {c : Char} {cs : List Char}
    (h : Segmented (file.getD unnamedSource) 0 source.toList ts n (c :: cs))
    (hstuck : Stuck (c :: cs)) :
    tokenize source file = .error
      (.located (.unrecognised (String.singleton c)) (.ofNat n (file.getD unnamedSource))) := by
  obtain ⟨hne, hfirst⟩ := stuck_iff.1 hstuck
  rw [tokenize, Reader.start, h.scan_eq, Reader.scan_eq, if_neg hne]
  dsimp only
  rw [hfirst]
  rfl

theorem tokenize_eq_ok_iff {source : String} {file : Option String} {ts : List Token} :
    tokenize source file = .ok ts ↔
      ∃ us n, Segmented (file.getD unnamedSource) 0 source.toList us n [] ∧
        ts = us ++ [Token.eof (.ofNat n) (file.getD unnamedSource)] := by
  constructor
  · intro h
    obtain ⟨us, n, hs⟩ | ⟨us, n, c, cs, hs, hstuck⟩ :=
      segmented_cases (file.getD unnamedSource) source
    · exact ⟨us, n, hs, Except.ok.inj (h.symm.trans hs.tokenize_eq_ok)⟩
    · cases h.symm.trans (hs.tokenize_eq_error hstuck)
  · rintro ⟨us, n, hs, rfl⟩
    exact hs.tokenize_eq_ok

theorem tokenize_eq_error_iff {source : String} {file : Option String} {fault : Fault} :
    tokenize source file = .error fault ↔
      ∃ us n c cs, Segmented (file.getD unnamedSource) 0 source.toList us n (c :: cs) ∧
        Stuck (c :: cs) ∧
        fault = .located (.unrecognised (String.singleton c))
          (.ofNat n (file.getD unnamedSource)) := by
  constructor
  · intro h
    obtain ⟨us, n, hs⟩ | ⟨us, n, c, cs, hs, hstuck⟩ :=
      segmented_cases (file.getD unnamedSource) source
    · cases h.symm.trans hs.tokenize_eq_ok
    · have hfault := Except.error.inj (h.symm.trans (hs.tokenize_eq_error hstuck))
      exact ⟨us, n, c, cs, hs, hstuck, hfault⟩
  · rintro ⟨us, n, c, cs, hs, hstuck, rfl⟩
    exact hs.tokenize_eq_error hstuck

theorem first?_eq_some {cs : List Char} {p : Pattern} (h : Pattern.first? cs = some p) :
    ∃ before after, Pattern.table = before ++ p :: after ∧ ∀ q ∈ before, ¬ q.Matches cs := by
  obtain ⟨-, before, after, htable, hbefore⟩ := List.find?_eq_some_iff_append.1 h
  refine ⟨before, after, htable, fun q hq => ?_⟩
  have hmem : q ∈ Pattern.table := by
    rw [htable]
    exact List.mem_append_left _ hq
  rw [Pattern.matches_iff hmem]
  simpa using hbefore q hq

/-- **The scanner cuts a source as maximal munch does**, and fails exactly where no piece can be
taken. -/
theorem tokenize_munches :
    (∀ (r : Reader) (p : Pattern), Pattern.first? r.rest = some p →
      (∃ before after, Pattern.table = before ++ p :: after ∧ ∀ q ∈ before, ¬ q.Matches r.rest) ∧
      ∃ w, w ≠ [] ∧ Munch r.rest p w ∧ r.rest = w ++ (r.past p).rest ∧
        (r.past p).offset = r.offset + Text.width w) ∧
    ∀ (source : String) (file : Option String),
      (∀ ts, tokenize source file = .ok ts ↔
        ∃ us n, Segmented (file.getD unnamedSource) 0 source.toList us n [] ∧
          ts = us ++ [Token.eof (.ofNat n) (file.getD unnamedSource)]) ∧
      (∀ fault, tokenize source file = .error fault ↔
        ∃ us n c cs, Segmented (file.getD unnamedSource) 0 source.toList us n (c :: cs) ∧
          Stuck (c :: cs) ∧
          fault = .located (.unrecognised (String.singleton c))
            (.ofNat n (file.getD unnamedSource))) := by
  refine ⟨fun r p hp => ⟨first?_eq_some hp, ?_⟩, fun source file => ⟨fun ts => ?_, fun fault => ?_⟩⟩
  · have hm := munch_longest hp
    exact ⟨_, hm.ne_nil, hm, (r.longest_append_rest_past p).symm, rfl⟩
  · exact tokenize_eq_ok_iff
  · exact tokenize_eq_error_iff

/-- A comment is longer than the slash that comes after it in the table. -/
theorem munch_slashes :
    Pattern.first? "//é\n/".toList = some .comment ∧
      ∃ w, Munch "//é\n/".toList .comment w ∧
        ((Reader.start "//é\n/" unnamedSource).past .comment).offset = Text.width w := by
  have hfirst : Pattern.first? "//é\n/".toList = some .comment := by decide
  obtain ⟨-, w, -, hm, -, hoffset⟩ :=
    tokenize_munches.1 (Reader.start "//é\n/" unnamedSource) .comment hfirst
  exact ⟨hfirst, w, hm, by simpa [Reader.start] using hoffset⟩

end ExprScript
