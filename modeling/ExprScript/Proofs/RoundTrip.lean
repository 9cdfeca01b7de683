import ExprScript.Proofs.Spelling

/-!
# Printing and reading back

Every surface tree has a source: its lexemes, spelled with single spaces. Operands are enclosed in
parentheses only where the grammar would group them otherwise: a left operand that binds looser than
its operator, a right operand that does not bind tighter, and an operator or assignment after `!`.

* `Kind.spelling`: the tokens with a fixed spelling.
* `Numerals`: a spelling of floating-point numbers by digits around a point.
* `Expr.rank`, `Expr.lexemes`, `Expr.source`: the printer.
* `Expr.Inner.derives`: the lexemes of a tree derive it; `Expr.Inner.valid`: they can be read.
* **`front_end_round_trip`**: sources have surface trees, and every surface tree is read back.
-/

namespace ExprScript

/-- The text of the tokens that are always spelled alike. -/
def Kind.spelling : Kind → String
  | .openCurly => "\x7b"
  | .closeCurly => "\x7d"
  | .openParen => "("
  | .closeParen => ")"
  | .assignment => "="
  | .equals => "=="
  | .not => "!"
  | .notEquals => "!="
  | .less => "<"
  | .lessEquals => "<="
  | .greater => ">"
  | .greaterEquals => ">="
  | .or => "||"
  | .and => "&&"
  | .semicolon => ";"
  | .plus => "+"
  | .dash => "-"
  | .slash => "/"
  | .star => "*"
  | .ifWord => "if"
  | .elseWord => "else"
  | .whileWord => "while"
  | .printWord => "print"
  | .trueWord => "true"
  | .falseWord => "false"
  | .eof | .number | .string | .identifier => ""

/-- The lexeme of a token that is always spelled alike. -/
def Kind.lexeme (k : Kind) : Lexeme := ⟨k, k.spelling⟩

theorem Kind.valid_lexeme (k : Kind)
    (h : k ≠ .eof ∧ k ≠ .number ∧ k ≠ .string ∧ k ≠ .identifier) : k.lexeme.Valid := by
  have word (x : String) (c : Char) (cs : List Char) (hx : x.toList = c :: cs)
      (hc : isWordStart c = true) (hcs : cs.all isWordChar = true) : Lexeme.Valid ⟨.ofWord x, x⟩ :=
    .word hx hc (List.all_eq_true.1 hcs)
  cases k
  case eof | number | string | identifier => simp at h
  case ifWord => exact word "if" 'i' ['f'] rfl rfl rfl
  case elseWord => exact word "else" 'e' ['l', 's', 'e'] rfl rfl rfl
  case whileWord => exact word "while" 'w' ['h', 'i', 'l', 'e'] rfl rfl rfl
  case printWord => exact word "print" 'p' ['r', 'i', 'n', 't'] rfl rfl rfl
  case trueWord => exact word "true" 't' ['r', 'u', 'e'] rfl rfl rfl
  case falseWord => exact word "false" 'f' ['a', 'l', 's', 'e'] rfl rfl rfl
  all_goals exact .mark (by decide)

/-- A way to spell floating-point numbers: whatever some decimal denotes is spelled by a decimal
that denotes it. -/
structure Numerals where
  text : Float → String
  spec : ∀ {x : Float} {cs : List Char}, IsDecimal cs → Number.fraction? cs = some x →
    IsDecimal (text x).toList ∧ Number.fraction? (text x).toList = some x

/-! ## The printer -/

namespace Expr

/-- How tightly the outermost operator of a tree binds. -/
def rank : Expr → Nat
  | assign _ _ => 1
  | logical .or _ _ => 2
  | logical .and _ _ => 3
  | comparison _ _ _ => 4
  | arithmetic .add _ _ | arithmetic .subtract _ _ => 5
  | arithmetic .multiply _ _ | arithmetic .divide _ _ => 6
  | _ => 7

/-- The literal `()`. -/
def isUnit : Expr → Bool
  | literal .unit => true
  | _ => false

end Expr

/-- The token of an arithmetic operator. -/
def Arithmetic.kind : Arithmetic → Kind
  | .add => .plus
  | .subtract => .dash
  | .multiply => .star
  | .divide => .slash

/-- The token of a logical operator. -/
def Logical.kind : Logical → Kind
  | .and => .and
  | .or => .or

/-- The token of a comparison. -/
def Comparison.kind : Comparison → Kind
  | .less => .less
  | .lessEq => .lessEquals
  | .greater => .greater
  | .greaterEq => .greaterEquals
  | .equal => .equals
  | .notEqual => .notEquals

/-- Lexemes in parentheses, if asked for. -/
def enclosed (b : Bool) (xs : List Lexeme) : List Lexeme :=
  if b then Kind.openParen.lexeme :: (xs ++ [Kind.closeParen.lexeme]) else xs

/-- An operator of a rank between its operands, given by their ranks and lexemes. -/
def infixed (rank : Nat) (k : Kind) (a b : Nat × List Lexeme) : List Lexeme :=
  enclosed (a.1 < rank) a.2 ++ k.lexeme :: enclosed (b.1 ≤ rank) b.2

/-- A number without its sign, and a minus sign if it has one. -/
def signedNumber (negative : Bool) (magnitude : String) : List Lexeme :=
  if negative then [Kind.dash.lexeme, ⟨.number, magnitude⟩] else [⟨.number, magnitude⟩]

/-- The lexemes of a value. -/
def Value.lexemes (ns : Numerals) : Value → List Lexeme
  | unit => [Kind.openParen.lexeme, Kind.closeParen.lexeme]
  | integer i => signedNumber (i.toInt < 0) (.ofList (Nat.toDigits 10 i.toInt.natAbs))
  | float x =>
    let negative := Number.isNegative x
    signedNumber negative (ns.text (if negative then -x else x))
  | string s => [⟨.string, s⟩]
  | boolean b => [(if b then Kind.trueWord else Kind.falseWord).lexeme]

namespace Expr

mutual

/-- The lexemes of a tree. -/
def lexemes (ns : Numerals) : Expr → List Lexeme
  | literal v => v.lexemes ns
  | var x => [⟨.identifier, x⟩]
  | assign x e => ⟨.identifier, x⟩ :: Kind.assignment.lexeme :: e.lexemes ns
  | arithmetic op a b =>
    infixed (arithmetic op a b).rank op.kind (a.rank, a.lexemes ns) (b.rank, b.lexemes ns)
  | logical op a b =>
    infixed (logical op a b).rank op.kind (a.rank, a.lexemes ns) (b.rank, b.lexemes ns)
  | comparison op a b =>
    infixed (comparison op a b).rank op.kind (a.rank, a.lexemes ns) (b.rank, b.lexemes ns)
  | not e => Kind.not.lexeme :: enclosed (e.rank < 7) (e.lexemes ns)
  | branch c y n =>
    Kind.ifWord.lexeme :: (c.lexemes ns ++ (y.lexemes ns ++
      if n.isUnit then [] else Kind.elseWord.lexeme :: n.lexemes ns))
  | loop c b => Kind.whileWord.lexeme :: (c.lexemes ns ++ b.lexemes ns)
  | sequence es => Kind.openCurly.lexeme :: (lexemesAll ns es ++ [Kind.closeCurly.lexeme])
  | program es => lexemesAll ns es
  | print e =>
    Kind.printWord.lexeme :: Kind.openParen.lexeme :: (e.lexemes ns ++ [Kind.closeParen.lexeme])

/-- The lexemes of items, with separators between them. -/
def lexemesAll (ns : Numerals) : List Expr → List Lexeme
  | [] => []
  | [e] => e.lexemes ns
  | e :: f :: es => e.lexemes ns ++ Kind.semicolon.lexeme :: lexemesAll ns (f :: es)

end

/-- The source of a tree. -/
def source (ns : Numerals) (e : Expr) : String := .ofList (spaced (e.lexemes ns))

example (ns : Numerals) :
    source ns (.program [.arithmetic .subtract (.literal (.integer (-1)))
        (.arithmetic .subtract (.var "x") (.arithmetic .multiply (.var "y") (.literal .unit))),
      .branch (.not (.logical .and (.var "a") (.var "b"))) (.sequence []) .unit]) =
      "- 1 - ( x - y * ( ) ) ; if ! ( a && b ) \x7b \x7d" := by rfl

end Expr

/-! ## Lexemes derive their tree -/

/-- The phrase that a tree is printed as. -/
def Expr.phrase : Expr → Phrase
  | .sequence _ => .block
  | .branch _ _ _ => .branch
  | e => .ofRank e.rank

theorem Derives.of_phrase {e : Expr} {ts : List Token} (h : Derives e.phrase ts e) :
    Derives (.ofRank e.rank) ts e := by
  cases e
  case sequence => exact .simple (.braces h)
  case branch => exact .simple (.choice h)
  all_goals exact h

theorem Derives.simple_ofRank {ts : List Token} {e : Expr} (h : Derives .primary ts e) (r : Nat) :
    Derives (.ofRank r) ts e := by
  have hu : Derives (.ofRank (r + 7)) ts e := by
    cases r <;> exact .simple h
  exact hu.weaken (by omega)

theorem kind_of_lexeme {t : Token} {k : Kind} (h : t.lexeme = k.lexeme) : t.kind = k :=
  congrArg Lexeme.kind h

/-- Parentheses stand exactly where the rank asks for them. -/
theorem derives_enclosed {e : Expr} {xs : List Lexeme} {r : Nat} {b : Bool}
    (hb : b = false → r ≤ e.rank)
    (h : ∀ ts : List Token, ts.map Token.lexeme = xs → Derives e.phrase ts e)
    {ts : List Token} (hts : ts.map Token.lexeme = enclosed b xs) : Derives (.ofRank r) ts e := by
  cases b with
  | false => exact (h ts hts).of_phrase.weaken (hb rfl)
  | true =>
    obtain ⟨l, us, rfl, hl, hus⟩ := List.map_eq_cons_iff.1 hts
    obtain ⟨vs, ws, rfl, hvs, hws⟩ := List.map_eq_append_iff.1 hus
    obtain ⟨q, rfl, hq⟩ := List.map_eq_singleton_iff.1 hws
    have he : Derives .expr vs e := (h vs hvs).of_phrase.weaken (Nat.zero_le _)
    exact .simple_ofRank (.group (kind_of_lexeme hl) (kind_of_lexeme hq) he) r

theorem derives_infixed {l : Level} {k : Kind} {tree : Expr → Expr → Expr} {r : Nat} {a b : Expr}
    {xs ys : List Lexeme} (hl : Phrase.ofRank r = .level l)
    (hr : Phrase.ofRank (r + 1) = l.tighter) (hk : l.tree? k = some tree)
    (ha : ∀ ts : List Token, ts.map Token.lexeme = xs → Derives a.phrase ts a)
    (hb : ∀ ts : List Token, ts.map Token.lexeme = ys → Derives b.phrase ts b)
    {ts : List Token} (hts : ts.map Token.lexeme = infixed r k (a.rank, xs) (b.rank, ys)) :
    Derives (.ofRank r) ts (tree a b) := by
  obtain ⟨us, vs, rfl, hus, hvs⟩ := List.map_eq_append_iff.1 hts
  obtain ⟨t, ws, rfl, ht, hws⟩ := List.map_eq_cons_iff.1 hvs
  have hleft : Derives (.ofRank r) us a := derives_enclosed (by simp) ha hus
  have hright : Derives (.ofRank (r + 1)) ws b :=
    derives_enclosed (fun h => Nat.lt_of_not_le (of_decide_eq_false h)) hb hws
  rw [hl] at hleft ⊢
  rw [hr] at hright
  exact .binary hleft (by rw [kind_of_lexeme ht, hk]) hright

/-! ### Literals -/

theorem isDigits_toDigits (n : Nat) : IsDigits (Nat.toDigits 10 n) :=
  ⟨Nat.toDigits_ne_nil, fun _ hc => Nat.isDigit_of_mem_toDigits (by decide) (by decide) hc⟩

theorem numberValue?_toDigits {n : Nat} (h : n < 2 ^ 63) :
    numberValue? (.ofList (Nat.toDigits 10 n)) = some (.integer (Int64.ofInt n)) := by
  have hd : IsDigits (String.ofList (Nat.toDigits 10 n)).toList := by
    rw [String.toList_ofList]
    exact isDigits_toDigits n
  have hn : Number.ofDigits (String.ofList (Nat.toDigits 10 n)).toList = n := by
    rw [String.toList_ofList]
    exact Nat.ofDigitChars_toDigits (by decide) (by decide)
  rw [hd.numberValue?, hn, if_pos h]

/-- The magnitude is read, and a minus sign changes it. -/
theorem derives_signedNumber {negative : Bool} {text : String} {v w : Value}
    (hv : numberValue? text = some v) (hp : negative = false → w = v)
    (hm : negative = true → (∃ i, v = .integer i ∧ w = .integer (-i)) ∨
      ∃ x, v = .float x ∧ w = .float (-x)) {ts : List Token}
    (hts : ts.map Token.lexeme = signedNumber negative text) : Derives .unary ts (.literal w) := by
  have number {us : List Token} (h : us.map Token.lexeme = [⟨.number, text⟩]) :
      Derives .unary us (.literal v) := by
    obtain ⟨t, rfl, ht⟩ := List.map_eq_singleton_iff.1 h
    refine .simple (.number (congrArg Lexeme.kind ht) ?_)
    rw [show t.value = text from congrArg Lexeme.value ht, hv]
  cases negative with
  | false =>
    rw [hp rfl]
    exact number hts
  | true =>
    obtain ⟨s, us, rfl, hs, hus⟩ := List.map_eq_cons_iff.1 hts
    obtain ⟨i, rfl, rfl⟩ | ⟨x, rfl, rfl⟩ := hm rfl
    · exact .negativeInteger (kind_of_lexeme hs) (number hus)
    · exact .negativeFloat (kind_of_lexeme hs) (number hus)

theorem derives_integer {i : Int64} (h : i.toInt.natAbs ≤ 2 ^ 63 - 1) {ns : Numerals}
    {ts : List Token} (hts : ts.map Token.lexeme = (Value.integer i).lexemes ns) :
    Derives .unary ts (.literal (.integer i)) := by
  refine derives_signedNumber (numberValue?_toDigits (by omega)) (fun hp => ?_) (fun hm => ?_) hts
  · have hi : (i.toInt.natAbs : Int) = i.toInt := by simp at hp; omega
    rw [hi, Int64.ofInt_toInt]
  · have hi : (i.toInt.natAbs : Int) = -i.toInt := by simp at hm; omega
    refine .inl ⟨_, rfl, ?_⟩
    rw [hi, Int64.ofInt_neg, Int64.ofInt_toInt, Int64.neg_neg]

theorem IsDecimal.unsigned {cs : List Char} {x : Float} (h : IsDecimal cs)
    (hx : Number.fraction? cs = some x) : x.toBits.toNat ≤ Number.infinityBits := by
  obtain ⟨y, hy, hle⟩ := h.exists_fraction?
  cases hy.symm.trans hx
  exact hle

theorem Numerals.numberValue?_text (ns : Numerals) {cs : List Char} {x : Float} (h : IsDecimal cs)
    (hx : Number.fraction? cs = some x) : numberValue? (ns.text x) = some (.float x) := by
  obtain ⟨hd, hf⟩ := ns.spec h hx
  rw [hd.numberValue?, hf]
  rfl

/-- The decimal of a number, by the sign of the number. -/
theorem IsPlain.exists_decimal {x : Float} (h : IsPlain x) : ∃ cs, IsDecimal cs ∧
    (Number.isNegative x = false ∧ Number.fraction? cs = some x ∨
      Number.isNegative x = true ∧ Number.fraction? cs = some (-x)) := by
  obtain ⟨cs, hcs, hx | hx⟩ := h
  · exact ⟨cs, hcs, .inl ⟨Number.isNegative_of_le (hcs.unsigned hx), hx⟩⟩
  · have hn := Number.isNegative_neg_of_le (hcs.unsigned hx)
    rw [Number.neg_neg] at hn
    exact ⟨cs, hcs, .inr ⟨hn, hx⟩⟩

theorem derives_float {x : Float} (h : IsPlain x) {ns : Numerals} {ts : List Token}
    (hts : ts.map Token.lexeme = (Value.float x).lexemes ns) :
    Derives .unary ts (.literal (.float x)) := by
  obtain ⟨cs, hcs, ⟨hn, hx⟩ | ⟨hn, hx⟩⟩ := h.exists_decimal
  · simp only [Value.lexemes, hn] at hts
    exact derives_signedNumber (ns.numberValue?_text hcs hx) (fun _ => rfl) (by simp) hts
  · simp only [Value.lexemes, hn] at hts
    refine derives_signedNumber (ns.numberValue?_text hcs hx) (by simp) (fun _ => ?_) hts
    exact .inr ⟨-x, rfl, by rw [Number.neg_neg]⟩

/-! ### Trees -/

theorem derives_lexemesAll {ns : Numerals} {es : List Expr}
    (h : ∀ e ∈ es, ∀ ts : List Token, ts.map Token.lexeme = e.lexemes ns → Derives .expr ts e)
    {ts : List Token} (hts : ts.map Token.lexeme = Expr.lexemesAll ns es) :
    Derives .items ts (.sequence es) := by
  induction es generalizing ts with
  | nil =>
    rw [Expr.lexemesAll] at hts
    cases List.map_eq_nil_iff.1 hts
    exact .noItems
  | cons e es ih =>
    cases es with
    | nil =>
      rw [Expr.lexemesAll] at hts
      exact .lastItem (h e (by simp) ts hts)
    | cons f es =>
      rw [Expr.lexemesAll] at hts
      obtain ⟨us, vs, rfl, hus, hvs⟩ := List.map_eq_append_iff.1 hts
      obtain ⟨t, ws, rfl, ht, hws⟩ := List.map_eq_cons_iff.1 hvs
      have hitems := ih (fun a ha => h a (List.mem_cons_of_mem e ha)) hws
      exact .separated (h e (by simp) us hus) (kind_of_lexeme ht) hitems

/-- **The lexemes of a tree derive it**, whatever the places of their tokens. -/
theorem Expr.Inner.derives (ns : Numerals) {e : Expr} (h : e.Inner) :
    ∀ ts : List Token, ts.map Token.lexeme = e.lexemes ns → Derives e.phrase ts e := by
  have expr {a : Expr} {ts : List Token} (h : Derives a.phrase ts a) : Derives .expr ts a :=
    h.of_phrase.weaken (Nat.zero_le _)
  induction h with
  | unit =>
    intro ts hts
    rw [Expr.lexemes, Value.lexemes] at hts
    obtain ⟨l, us, rfl, hl, hus⟩ := List.map_eq_cons_iff.1 hts
    obtain ⟨r, rfl, hr⟩ := List.map_eq_singleton_iff.1 hus
    exact .simple (.unit (kind_of_lexeme hl) (kind_of_lexeme hr))
  | integer h =>
    intro ts hts
    rw [Expr.lexemes] at hts
    exact derives_integer h hts
  | float h =>
    intro ts hts
    rw [Expr.lexemes] at hts
    exact derives_float h hts
  | string s =>
    intro ts hts
    rw [Expr.lexemes, Value.lexemes] at hts
    obtain ⟨t, rfl, ht⟩ := List.map_eq_singleton_iff.1 hts
    rw [← show t.value = s from congrArg Lexeme.value ht]
    exact .simple (.string (congrArg Lexeme.kind ht))
  | boolean b =>
    intro ts hts
    rw [Expr.lexemes, Value.lexemes] at hts
    obtain ⟨t, rfl, ht⟩ := List.map_eq_singleton_iff.1 hts
    cases b with
    | false => exact .simple (.falsity (kind_of_lexeme ht))
    | true => exact .simple (.truth (kind_of_lexeme ht))
  | @var x _ =>
    intro ts hts
    rw [Expr.lexemes] at hts
    obtain ⟨t, rfl, ht⟩ := List.map_eq_singleton_iff.1 hts
    rw [← show t.value = x from congrArg Lexeme.value ht]
    exact .simple (.name (congrArg Lexeme.kind ht))
  | @assign x e _ _ ih =>
    intro ts hts
    rw [Expr.lexemes] at hts
    obtain ⟨t, us, rfl, ht, hus⟩ := List.map_eq_cons_iff.1 hts
    obtain ⟨s, vs, rfl, hs, hvs⟩ := List.map_eq_cons_iff.1 hus
    rw [← show t.value = x from congrArg Lexeme.value ht]
    have hname : Target [t] t.value := .name (congrArg Lexeme.kind ht)
    exact .assign hname (kind_of_lexeme hs) (expr (ih vs hvs))
  | arithmetic op _ _ iha ihb =>
    intro ts hts
    rw [Expr.lexemes] at hts
    cases op with
    | add | subtract => exact derives_infixed (l := .sum) rfl rfl rfl iha ihb hts
    | multiply | divide => exact derives_infixed (l := .product) rfl rfl rfl iha ihb hts
  | logical op _ _ iha ihb =>
    intro ts hts
    rw [Expr.lexemes] at hts
    cases op with
    | or => exact derives_infixed (l := .disjunction) rfl rfl rfl iha ihb hts
    | and => exact derives_infixed (l := .conjunction) rfl rfl rfl iha ihb hts
  | comparison op _ _ iha ihb =>
    intro ts hts
    rw [Expr.lexemes] at hts
    cases op <;> exact derives_infixed (l := .relation) rfl rfl rfl iha ihb hts
  | @not e _ ih =>
    intro ts hts
    rw [Expr.lexemes] at hts
    obtain ⟨t, us, rfl, ht, hus⟩ := List.map_eq_cons_iff.1 hts
    have ha : Derives (.ofRank 7) us e := derives_enclosed (by simp) ih hus
    exact .not (kind_of_lexeme ht) ha
  | @branch c n ys _ _ _ hform ihc ihy ihn =>
    intro ts hts
    rw [Expr.lexemes] at hts
    obtain ⟨t, us, rfl, ht, hus⟩ := List.map_eq_cons_iff.1 hts
    obtain ⟨vs, ws, rfl, hvs, hws⟩ := List.map_eq_append_iff.1 hus
    obtain ⟨ps, qs, rfl, hps, hqs⟩ := List.map_eq_append_iff.1 hws
    have hif := kind_of_lexeme ht
    have hc := expr (ihc vs hvs)
    have hy := ihy ps hps
    have alternative {o : Phrase} (ho : o = .block ∨ o = .branch) (hphrase : n.phrase = o)
        (hn : n.isUnit = false) : Derives .branch (t :: (vs ++ (ps ++ qs)))
          (.branch c (.sequence ys) n) := by
      rw [hn] at hqs
      obtain ⟨s, rs, rfl, hs, hrs⟩ := List.map_eq_cons_iff.1 hqs
      exact .branchElse hif hc hy (kind_of_lexeme hs) ho (hphrase ▸ ihn rs hrs)
    obtain rfl | ⟨zs, rfl⟩ | ⟨c', y', n', rfl⟩ := hform
    · cases List.map_eq_nil_iff.1 hqs
      rw [List.append_nil]
      exact .branch hif hc hy
    · exact alternative (.inl rfl) rfl rfl
    · exact alternative (.inr rfl) rfl rfl
  | loop _ _ ihc ihb =>
    intro ts hts
    rw [Expr.lexemes] at hts
    obtain ⟨t, us, rfl, ht, hus⟩ := List.map_eq_cons_iff.1 hts
    obtain ⟨vs, ws, rfl, hvs, hws⟩ := List.map_eq_append_iff.1 hus
    exact .simple (.loop (kind_of_lexeme ht) (expr (ihc vs hvs)) (ihb ws hws))
  | sequence _ ih =>
    intro ts hts
    rw [Expr.lexemes] at hts
    obtain ⟨l, us, rfl, hl, hus⟩ := List.map_eq_cons_iff.1 hts
    obtain ⟨vs, ws, rfl, hvs, hws⟩ := List.map_eq_append_iff.1 hus
    obtain ⟨r, rfl, hr⟩ := List.map_eq_singleton_iff.1 hws
    have hitems := derives_lexemesAll (fun a ha us hus => expr (ih a ha us hus)) hvs
    exact .block (kind_of_lexeme hl) (kind_of_lexeme hr) hitems
  | print _ ih =>
    intro ts hts
    rw [Expr.lexemes] at hts
    obtain ⟨t, us, rfl, ht, hus⟩ := List.map_eq_cons_iff.1 hts
    obtain ⟨l, vs, rfl, hl, hvs⟩ := List.map_eq_cons_iff.1 hus
    obtain ⟨ws, ps, rfl, hws, hps⟩ := List.map_eq_append_iff.1 hvs
    obtain ⟨r, rfl, hr⟩ := List.map_eq_singleton_iff.1 hps
    exact .simple (.print (kind_of_lexeme ht) (kind_of_lexeme hl) (kind_of_lexeme hr)
      (expr (ih ws hws)))

/-! ## Lexemes can be read -/

theorem valid_enclosed {b : Bool} {xs : List Lexeme} (h : ∀ x ∈ xs, x.Valid) :
    ∀ x ∈ enclosed b xs, x.Valid := by
  cases b with
  | false => exact h
  | true =>
    have hl : Kind.openParen.lexeme.Valid := Kind.valid_lexeme _ (by decide)
    have hr : Kind.closeParen.lexeme.Valid := Kind.valid_lexeme _ (by decide)
    simpa [enclosed, or_imp, forall_and, hl, hr] using h

theorem valid_infixed {r : Nat} {k : Kind} {a b : Nat × List Lexeme} (hk : k.lexeme.Valid)
    (ha : ∀ x ∈ a.2, x.Valid) (hb : ∀ x ∈ b.2, x.Valid) : ∀ x ∈ infixed r k a b, x.Valid := by
  intro x hx
  obtain hx | hx := List.mem_append.1 hx
  · exact valid_enclosed ha x hx
  · obtain rfl | hx := List.mem_cons.1 hx
    · exact hk
    · exact valid_enclosed hb x hx

theorem valid_signedNumber {negative : Bool} {text : String}
    (h : IsDigits text.toList ∨ IsDecimal text.toList) :
    ∀ x ∈ signedNumber negative text, x.Valid := by
  have hd : Kind.dash.lexeme.Valid := Kind.valid_lexeme _ (by decide)
  have hn : Lexeme.Valid ⟨.number, text⟩ := .number h
  cases negative <;> simp [signedNumber, hd, hn]

theorem IsPlain.isDecimal_text {x : Float} (h : IsPlain x) (ns : Numerals) :
    IsDecimal (ns.text (if Number.isNegative x then -x else x)).toList := by
  obtain ⟨cs, hcs, ⟨hn, hx⟩ | ⟨hn, hx⟩⟩ := h.exists_decimal
  · rw [hn]
    exact (ns.spec hcs hx).1
  · rw [hn]
    exact (ns.spec hcs hx).1

theorem IsName.valid {x : String} (h : IsName x) : Lexeme.Valid ⟨.identifier, x⟩ := by
  obtain ⟨⟨c, cs, hx, hc, hcs⟩, hr⟩ := h
  rw [← ofWord_eq_identifier.2 hr]
  exact .word hx hc hcs

theorem valid_lexemesAll {ns : Numerals} {es : List Expr}
    (h : ∀ e ∈ es, ∀ x ∈ e.lexemes ns, x.Valid) : ∀ x ∈ Expr.lexemesAll ns es, x.Valid := by
  induction es with
  | nil => simp [Expr.lexemesAll]
  | cons e es ih =>
    cases es with
    | nil =>
      rw [Expr.lexemesAll]
      exact h e (by simp)
    | cons f es =>
      intro x hx
      rw [Expr.lexemesAll] at hx
      obtain hx | hx := List.mem_append.1 hx
      · exact h e (by simp) x hx
      · obtain rfl | hx := List.mem_cons.1 hx
        · exact Kind.valid_lexeme _ (by decide)
        · exact ih (fun a ha => h a (List.mem_cons_of_mem e ha)) x hx

/-- **The lexemes of a tree can be read.** -/
theorem Expr.Inner.valid (ns : Numerals) {e : Expr} (h : e.Inner) :
    ∀ x ∈ e.lexemes ns, x.Valid := by
  have fixed (k : Kind) (h : k ≠ .eof ∧ k ≠ .number ∧ k ≠ .string ∧ k ≠ .identifier) :=
    k.valid_lexeme h
  induction h with
  | unit => simp [Expr.lexemes, Value.lexemes, fixed]
  | integer h =>
    rw [Expr.lexemes, Value.lexemes]
    exact valid_signedNumber (.inl (by rw [String.toList_ofList]; exact isDigits_toDigits _))
  | float h =>
    rw [Expr.lexemes, Value.lexemes]
    exact valid_signedNumber (.inr (h.isDecimal_text ns))
  | string s => simp [Expr.lexemes, Value.lexemes, Lexeme.Valid.string]
  | boolean b => cases b <;> simp [Expr.lexemes, Value.lexemes, fixed]
  | var h => simp [Expr.lexemes, h.valid]
  | assign hx _ ih => simpa [Expr.lexemes, hx.valid, fixed] using ih
  | arithmetic op _ _ iha ihb =>
    rw [Expr.lexemes]
    exact valid_infixed (fixed _ (by cases op <;> decide)) iha ihb
  | logical op _ _ iha ihb =>
    rw [Expr.lexemes]
    exact valid_infixed (fixed _ (by cases op <;> decide)) iha ihb
  | comparison op _ _ iha ihb =>
    rw [Expr.lexemes]
    exact valid_infixed (fixed _ (by cases op <;> decide)) iha ihb
  | not _ ih => simpa [Expr.lexemes, fixed] using valid_enclosed ih
  | @branch c n ys _ _ _ _ ihc ihy ihn =>
    rw [Expr.lexemes]
    have ho : ∀ x ∈ (if n.isUnit then [] else Kind.elseWord.lexeme :: n.lexemes ns), x.Valid := by
      split
      · simp
      · simpa [fixed] using ihn
    simp only [List.mem_cons, List.mem_append, or_imp, forall_and, forall_eq]
    exact ⟨fixed _ (by decide), ihc, ihy, ho⟩
  | loop _ _ ihc ihb =>
    rw [Expr.lexemes]
    simp only [List.mem_cons, List.mem_append, or_imp, forall_and, forall_eq]
    exact ⟨fixed _ (by decide), ihc, ihb⟩
  | sequence _ ih =>
    rw [Expr.lexemes]
    simp only [List.mem_cons, List.mem_append, List.not_mem_nil, or_false, or_imp, forall_and,
      forall_eq]
    exact ⟨fixed _ (by decide), valid_lexemesAll ih, fixed _ (by decide)⟩
  | print _ ih =>
    rw [Expr.lexemes]
    simp only [List.mem_cons, List.mem_append, List.not_mem_nil, or_false, or_imp, forall_and,
      forall_eq]
    exact ⟨fixed _ (by decide), fixed _ (by decide), ih, fixed _ (by decide)⟩

/-! ## The round trip -/

open Classical in
/-- A spelling of the numbers that decimals denote, by any decimal that denotes them. -/
noncomputable def Numerals.chosen : Numerals where
  text x := if h : ∃ cs, IsDecimal cs ∧ Number.fraction? cs = some x then .ofList h.choose else ""
  spec := by
    intro x cs hcs hx
    have h : ∃ cs, IsDecimal cs ∧ Number.fraction? cs = some x := ⟨cs, hcs, hx⟩
    rw [dif_pos h, String.toList_ofList]
    exact h.choose_spec

theorem readSource_source {e : Expr} (h : e.Surface) (ns : Numerals) (file : Option String) :
    readSource (e.source ns) file = some (.ok e) := by
  obtain ⟨es, rfl, hes⟩ := h
  have hlex : (Expr.program es).lexemes ns = Expr.lexemesAll ns es := by rw [Expr.lexemes]
  have hrest : (Reader.start ((Expr.program es).source ns) (file.getD unnamedSource)).rest =
      spaced (Expr.lexemesAll ns es) := by
    rw [Reader.start, Expr.source, hlex, String.toList_ofList]
  obtain ⟨ts, t, hscan, hmap, ht⟩ :=
    Reader.scan_spaced (valid_lexemesAll fun e he => (hes e he).valid ns) hrest
  have hd : Derives .items ts (.sequence es) :=
    derives_lexemesAll (fun e he us hus =>
      ((hes e he).derives ns us hus).of_phrase.weaken (Nat.zero_le _)) hmap
  have htake : (ts ++ [t]).takeWhile (·.kind ≠ .eof) = ts := by
    rw [List.takeWhile_append_of_pos (by simpa [Endless] using hd.endless),
      List.takeWhile_cons_of_neg (by simpa using ht), List.append_nil]
  rw [readSource, tokenize, hscan]
  exact parse_of_derives (by rw [htake]; exact hd)

/-- **Sources have exactly the surface trees, and a printed tree is read back.** Printing spells
floating-point numbers in any way that numerals allow. -/
theorem front_end_round_trip (file : Option String) :
    (∀ e, (∃ source, readSource source file = some (.ok e)) ↔ e.Surface) ∧
      ∀ (ns : Numerals) (e : Expr), e.Surface →
        readSource (e.source ns) file = some (.ok e) := by
  refine ⟨fun e => ⟨?_, fun h => ?_⟩, fun ns e h => readSource_source h ns file⟩
  · rintro ⟨source, h⟩
    exact surface_of_readSource h
  · exact ⟨e.source .chosen, readSource_source h .chosen file⟩

theorem isName_x : IsName "x" := ⟨⟨'x', [], rfl, rfl, by simp⟩, by decide⟩

/-- A tree whose operands stand against the grouping of its operators, with a negative number of
each tag and a quote in a string. -/
def Expr.regrouped : Expr :=
  .program
    [.assign "x" (.arithmetic .subtract (.literal (.integer (-1)))
      (.arithmetic .subtract (.literal (.float (-(.ofBits 0x3FE0000000000000)))) (.var "x"))),
    .branch (.not (.comparison .less (.assign "x" .unit) (.literal (.string "\\\""))))
      (.sequence [.var "x", .var "x"]) .unit]

theorem Expr.surface_regrouped : Expr.regrouped.Surface := by
  have hx : (Expr.var "x").Inner := .var isName_x
  have hhalf : Number.fraction? ['0', '.', '5'] = some (.ofBits 0x3FE0000000000000) := rfl
  have hf : IsPlain (-(.ofBits 0x3FE0000000000000)) := by
    refine ⟨['0', '.', '5'], ⟨['0'], ['5'], rfl, ⟨by simp, by simp⟩, ⟨by simp, by simp⟩⟩, .inr ?_⟩
    rw [Number.neg_neg, hhalf]
  refine ⟨_, rfl, ?_⟩
  simp only [List.mem_cons, List.not_mem_nil, or_false, forall_eq_or_imp, forall_eq]
  refine ⟨.assign isName_x (.arithmetic _ (.integer (by decide))
    (.arithmetic _ (.float hf) hx)), ?_⟩
  refine .branch (.not (.comparison _ (.assign isName_x .unit) (.string _))) (.sequence ?_) .unit
    (.inl rfl)
  simpa using hx

theorem front_end_round_trip_regrouped :
    Expr.regrouped.Surface ∧
      readSource (Expr.regrouped.source .chosen) none = some (.ok Expr.regrouped) :=
  ⟨Expr.surface_regrouped, (front_end_round_trip none).2 .chosen _ Expr.surface_regrouped⟩

end ExprScript
