import ExprScript.Proofs.Acceptance
import ExprScript.Proofs.SignBit
import ExprScript.Run

/-!
# The trees of sources

What reading a source can build. The words and numbers of its tokens have the forms that patterns
pick, and the grammar carries these forms over to names and literals.

* `IsName`, `IsDigits`, `IsDecimal`: the forms of words and numbers.
* `Expr.Inner`, `Expr.Surface`: trees that a source can spell.
* `Token.Lexical`, **`Reader.lexical_of_scan`**: the tokens of a source have these forms.
* **`surface_of_readSource`**: the tree of a source is a surface tree.
-/

namespace ExprScript

/-- The words that are no names. -/
def reserved : List String := ["if", "else", "while", "print", "true", "false"]

/-- A letter or underscore, then letters, digits and underscores, and not reserved. -/
def IsName (x : String) : Prop :=
  (∃ c cs, x.toList = c :: cs ∧ isWordStart c = true ∧ ∀ d ∈ cs, isWordChar d = true) ∧ x ∉ reserved

/-- One digit or more. -/
def IsDigits (cs : List Char) : Prop := cs ≠ [] ∧ ∀ c ∈ cs, c.isDigit = true

/-- Digits, a point and digits. -/
def IsDecimal (cs : List Char) : Prop := ∃ a b, cs = a ++ '.' :: b ∧ IsDigits a ∧ IsDigits b

/-- The number is that of a decimal, up to its sign. -/
def IsPlain (x : Float) : Prop :=
  ∃ cs, IsDecimal cs ∧ (Number.fraction? cs = some x ∨ Number.fraction? cs = some (-x))

/-- A tree below the root. -/
inductive Expr.Inner : Expr → Prop
  | unit : Inner (.literal .unit)
  /-- The least integer has no magnitude, so it cannot be spelled. -/
  | integer {i : Int64} (h : i.toInt.natAbs ≤ 2 ^ 63 - 1) : Inner (.literal (.integer i))
  | float {x : Float} (h : IsPlain x) : Inner (.literal (.float x))
  | string (s : String) : Inner (.literal (.string s))
  | boolean (b : Bool) : Inner (.literal (.boolean b))
  | var {x : String} (h : IsName x) : Inner (.var x)
  | assign {x : String} {e : Expr} (hx : IsName x) (he : Inner e) : Inner (.assign x e)
  | arithmetic (op : Arithmetic) {a b : Expr} (ha : Inner a) (hb : Inner b) :
      Inner (.arithmetic op a b)
  | logical (op : Logical) {a b : Expr} (ha : Inner a) (hb : Inner b) : Inner (.logical op a b)
  | comparison (op : Comparison) {a b : Expr} (ha : Inner a) (hb : Inner b) :
      Inner (.comparison op a b)
  | not {e : Expr} (he : Inner e) : Inner (.not e)
  /-- A branch without an alternative has the unit literal in its place. -/
  | branch {c n : Expr} {ys : List Expr} (hc : Inner c) (hy : Inner (.sequence ys)) (hn : Inner n)
      (h : n = .unit ∨ (∃ ns, n = .sequence ns) ∨ ∃ c' y' n', n = .branch c' y' n') :
      Inner (.branch c (.sequence ys) n)
  | loop {c : Expr} {bs : List Expr} (hc : Inner c) (hb : Inner (.sequence bs)) :
      Inner (.loop c (.sequence bs))
  | sequence {es : List Expr} (h : ∀ e ∈ es, Inner e) : Inner (.sequence es)
  | print {e : Expr} (he : Inner e) : Inner (.print e)

/-- A tree whose root, and nothing else, is a program, and that has the forms of the language. -/
def Expr.Surface (e : Expr) : Prop := ∃ es, e = .program es ∧ ∀ a ∈ es, a.Inner

/-! ## Tokens -/

/-- A name or number token has the form of one. -/
structure Token.Lexical (t : Token) : Prop where
  name : t.kind = .identifier → IsName t.value
  number : t.kind = .number → IsDigits t.value.toList ∨ IsDecimal t.value.toList

theorem ofWord_eq_identifier {x : String} : Kind.ofWord x = .identifier ↔ x ∉ reserved := by
  unfold Kind.ofWord
  split <;> simp_all [reserved]

theorem ofWord_ne (x : String) : Kind.ofWord x ≠ .number ∧ Kind.ofWord x ≠ .string := by
  unfold Kind.ofWord
  split <;> simp

theorem isDigits_takeWhile {cs : List Char} (h : (cs.takeWhile Char.isDigit).isEmpty = false) :
    IsDigits (cs.takeWhile Char.isDigit) := by
  refine ⟨by simpa using h, fun c hc => ?_⟩
  exact List.all_eq_true.1 List.all_takeWhile c hc

theorem Pattern.longest_word {cs : List Char} (h : word.longest cs ≠ []) :
    ∃ c ds, word.longest cs = c :: ds ∧ isWordStart c = true ∧ ∀ d ∈ ds, isWordChar d = true := by
  cases cs with
  | nil => exact absurd rfl h
  | cons c cs =>
    simp only [longest] at h ⊢
    split at h
    · next hc =>
      rw [if_pos hc]
      exact ⟨c, _, rfl, hc, fun d hd => List.all_eq_true.1 List.all_takeWhile d hd⟩
    · exact absurd rfl h

theorem Pattern.longest_number {cs : List Char} (h : number.longest cs ≠ []) :
    IsDigits (number.longest cs) ∨ IsDecimal (number.longest cs) := by
  simp only [longest] at h ⊢
  split at h
  · exact absurd rfl h
  · next hw =>
    rw [if_neg hw]
    have hw := isDigits_takeWhile (Bool.eq_false_iff.2 hw)
    split
    · next after _ =>
      split
      · exact .inl hw
      · next hp => exact .inr ⟨_, _, rfl, hw, isDigits_takeWhile (Bool.eq_false_iff.2 hp)⟩
    · exact .inl hw

/-- A check that every mark of the table passes. -/
theorem Pattern.check_of_mark_mem_table {kind : Kind} {spelling : String}
    (check : Kind → String → Bool)
    (hall : table.all (fun | mark k s => check k s | _ => true) = true)
    (h : mark kind spelling ∈ table) : check kind spelling = true :=
  List.all_eq_true.1 hall _ h

theorem Pattern.kind_of_mark_mem_table {kind : Kind} {spelling : String}
    (h : mark kind spelling ∈ table) :
    kind ≠ .identifier ∧ kind ≠ .number ∧ kind ≠ .string := by
  have hk := check_of_mark_mem_table
    (fun k _ => k ≠ .identifier ∧ k ≠ .number ∧ k ≠ .string) (by decide) h
  exact of_decide_eq_true hk

namespace Reader

theorem lexical_of_emit {r : Reader} {p : Pattern} (hp : Pattern.first? r.rest = some p)
    {t : Token} (ht : t ∈ r.emit p) : t.Lexical := by
  have hne := Pattern.longest_ne_nil_of_first? hp
  cases p with
  | blanks | comment => cases ht
  | word =>
    cases List.mem_singleton.1 ht
    refine ⟨fun hk => ⟨?_, ofWord_eq_identifier.1 hk⟩, fun hk => absurd hk (ofWord_ne _).1⟩
    simpa using Pattern.longest_word hne
  | number =>
    cases List.mem_singleton.1 ht
    refine ⟨(by rintro ⟨⟩), fun _ => ?_⟩
    simpa using Pattern.longest_number hne
  | quoted =>
    cases List.mem_singleton.1 ht
    exact ⟨(by rintro ⟨⟩), (by rintro ⟨⟩)⟩
  | mark kind spelling =>
    cases List.mem_singleton.1 ht
    obtain ⟨h₁, h₂, -⟩ := Pattern.kind_of_mark_mem_table (List.mem_of_find?_eq_some hp)
    exact ⟨fun h => absurd h h₁, fun h => absurd h h₂⟩

/-- **The names and numbers of a source have their forms.** -/
theorem lexical_of_scan {r : Reader} {ts : List Token} (h : r.scan = .ok ts) :
    ∀ t ∈ ts, t.Lexical := by
  -- On the length of what is left, since every pattern takes something.
  induction hn : r.rest.length using Nat.strongRecOn generalizing r ts with
  | ind n ih =>
    rw [scan_eq] at h
    split at h
    · cases h
      intro t ht
      cases List.mem_singleton.1 ht
      exact ⟨(by rintro ⟨⟩), (by rintro ⟨⟩)⟩
    · next hr =>
      split at h
      · next p hp =>
        cases hs : (r.past p).scan with
        | error f =>
          rw [hs] at h
          cases h
        | ok us =>
          rw [hs] at h
          cases h
          intro t ht
          obtain ht | ht := List.mem_append.1 ht
          · exact lexical_of_emit hp ht
          · exact ih _ (hn ▸ length_rest_past hr hp) hs rfl t ht
      · cases h

end Reader

/-! ## Numbers -/

/-- A run of characters ends at the first one that is not in its class. -/
theorem span_append {p : Char → Bool} {a r : List Char} (ha : ∀ c ∈ a, p c = true)
    (hr : ∀ c s, r = c :: s → p c = false) :
    (a ++ r).takeWhile p = a ∧ (a ++ r).dropWhile p = r := by
  rw [List.takeWhile_append_of_pos ha, List.dropWhile_append_of_pos ha]
  cases r with
  | nil => simp
  | cons c s => simp [hr c s rfl]

theorem IsDigits.point_not_mem {cs : List Char} (h : IsDigits cs) : '.' ∉ cs :=
  fun hp => absurd (h.2 _ hp) (by decide)

theorem IsDigits.splitSign {cs : List Char} (h : IsDigits cs) (ds : List Char) :
    Number.splitSign (cs ++ ds) = (false, cs ++ ds) := by
  obtain ⟨hne, hd⟩ := h
  obtain ⟨c, cs, rfl⟩ := List.exists_cons_of_ne_nil hne
  have hc := hd c (by simp)
  unfold Number.splitSign
  split
  · next heq =>
    cases heq
    exact absurd hc (by decide)
  · next heq =>
    cases heq
    exact absurd hc (by decide)
  · rfl

theorem IsDigits.integer? {cs : List Char} (h : IsDigits cs) :
    Number.integer? cs =
      if Number.ofDigits cs < 2 ^ 63 then some (Int64.ofInt (Number.ofDigits cs)) else none := by
  have hs := h.splitSign []
  rw [List.append_nil] at hs
  have hd : Number.digits? cs = some (Number.ofDigits cs) := by
    have hall : cs.all Char.isDigit = true := List.all_eq_true.2 h.2
    simp [Number.digits?, h.1, hall]
  have hi : Number.signedDigits? cs = some (Number.ofDigits cs : Int) := by
    simp [Number.signedDigits?, hs, hd]
  rw [Number.integer?, hi, Option.bind_some, Int64.toInt_minValue, Int64.toInt_maxValue]
  by_cases hlt : Number.ofDigits cs < 2 ^ 63
  · rw [if_pos hlt, if_pos ⟨by omega, by omega⟩]
  · rw [if_neg hlt, if_neg (by omega)]

theorem IsDigits.numberValue? {x : String} (h : IsDigits x.toList) :
    numberValue? x = if Number.ofDigits x.toList < 2 ^ 63 then
      some (.integer (Int64.ofInt (Number.ofDigits x.toList))) else none := by
  rw [ExprScript.numberValue?, if_neg h.point_not_mem, h.integer?]
  split <;> rfl

theorem IsDecimal.numberValue? {x : String} (h : IsDecimal x.toList) :
    numberValue? x = (Number.fraction? x.toList).map Value.float := by
  obtain ⟨a, b, hx, -⟩ := h
  rw [ExprScript.numberValue?, if_pos (by rw [hx]; simp)]

/-- A decimal has a number, which has no sign. -/
theorem IsDecimal.exists_fraction? {cs : List Char} (h : IsDecimal cs) :
    ∃ x, Number.fraction? cs = some x ∧ x.toBits.toNat ≤ Number.infinityBits := by
  obtain ⟨a, b, rfl, ha, hb⟩ := h
  have hpoint : ∀ c s, '.' :: b = c :: s → c.isDigit = false := by
    intro c s h
    cases h
    rfl
  obtain ⟨hta, hda⟩ := span_append ha.2 hpoint
  obtain ⟨htb, hdb⟩ := span_append (r := []) hb.2 (by simp)
  rw [List.append_nil] at htb hdb
  refine ⟨_, ?_, Number.toBits_ofScientific_le (Number.ofDigits (a ++ b)) (0 - b.length)⟩
  simp [Number.fraction?, ha.splitSign, hta, hda, htb, hdb, ha.1, Number.exponent?]

/-! ## Trees -/

theorem inner_number {x : String} {v : Value} (hx : IsDigits x.toList ∨ IsDecimal x.toList)
    (hv : numberValue? x = some v) : (Expr.literal v).Inner := by
  obtain hx | hx := hx
  · rw [hx.numberValue?] at hv
    split at hv
    · next hlt =>
      cases hv
      refine .integer ?_
      rw [Int64.toInt_ofInt_of_le (by omega) (by omega)]
      omega
    · cases hv
  · rw [hx.numberValue?] at hv
    obtain ⟨y, hy, rfl⟩ := Option.map_eq_some_iff.1 hv
    exact .float ⟨_, hx, .inl hy⟩

theorem Expr.Inner.neg_integer {i : Int64} (h : (Expr.literal (.integer i)).Inner) :
    (Expr.literal (.integer (-i))).Inner := by
  cases h with
  | integer h =>
    refine .integer ?_
    rw [Int64.toInt_neg, Int.bmod_eq_of_le (by omega) (by omega)]
    omega

theorem IsPlain.neg {x : Float} (h : IsPlain x) : IsPlain (-x) := by
  obtain ⟨cs, hcs, h | h⟩ := h
  · exact ⟨cs, hcs, .inr (by rw [Number.neg_neg, h])⟩
  · exact ⟨cs, hcs, .inl h⟩

theorem Target.isName {u : List Token} {x : String} (h : Target u x)
    (hu : ∀ t ∈ u, t.Lexical) : IsName x := by
  induction h with
  | name ht => exact (hu _ (by simp)).name ht
  | group _ _ _ ih => exact ih fun t ht => hu t (by simp [ht])

/-- **Lexical tokens derive inner trees.** -/
theorem Derives.inner {p : Phrase} {u : List Token} {e : Expr} (h : Derives p u e)
    (hu : ∀ t ∈ u, t.Lexical) : e.Inner := by
  have block {v : List Token} {b : Expr} (hb : Derives .block v b) : ∃ bs, b = .sequence bs := by
    cases hb with
    | block _ _ h => cases h <;> exact ⟨_, rfl⟩
  induction h with
  | noItems => exact .sequence (by simp)
  | lastItem _ ih => exact .sequence (by simpa using ih hu)
  | separated _ _ _ ih ihs =>
    cases ihs fun t ht => hu t (by simp [ht]) with
    | sequence hs => exact .sequence (by simpa using ⟨ih fun t ht => hu t (by simp [ht]), hs⟩)
  | closed _ _ _ _ _ ih ihs =>
    cases ihs fun t ht => hu t (List.mem_append_right _ ht) with
    | sequence hs => exact .sequence (by simpa using ⟨ih fun t ht => hu t (by simp [ht]), hs⟩)
  | assign hx _ _ ih =>
    exact .assign (hx.isName fun t ht => hu t (by simp [ht])) (ih fun t ht => hu t (by simp [ht]))
  | operation _ ih | operand _ ih | simple _ ih | braces _ ih | choice _ ih => exact ih hu
  | @binary l t _ _ _ _ _ _ ht _ iha ihb =>
    have ha := iha fun t ht => hu t (by simp [ht])
    have hb := ihb fun t ht => hu t (by simp [ht])
    revert ht
    cases l <;> cases t.kind <;> rintro ⟨⟩
    all_goals first
      | exact .arithmetic _ ha hb
      | exact .logical _ ha hb
      | exact .comparison _ ha hb
  | not _ _ ih => exact .not (ih fun t ht => hu t (by simp [ht]))
  | negativeInteger _ _ ih => exact (ih fun t ht => hu t (by simp [ht])).neg_integer
  | negativeFloat _ _ ih =>
    cases ih fun t ht => hu t (by simp [ht]) with
    | float h => exact .float h.neg
  | integer ht hp hi => exact inner_number ((hu _ (by simp)).number ht) (numberValue?_integer hp hi)
  | float ht hp hx => exact inner_number ((hu _ (by simp)).number ht) (numberValue?_float hp hx)
  | name ht => exact .var ((hu _ (by simp)).name ht)
  | string => exact .string _
  | truth | falsity => exact .boolean _
  | unit => exact .unit
  | group _ _ _ ih | block _ _ _ ih => exact ih fun t ht => hu t (by simp [ht])
  | print _ _ _ _ ih => exact .print (ih fun t ht => hu t (by simp [ht]))
  | loop _ _ hb ihc ihb =>
    obtain ⟨bs, rfl⟩ := block hb
    exact .loop (ihc fun t ht => hu t (by simp [ht])) (ihb fun t ht => hu t (by simp [ht]))
  | branch _ _ hy ihc ihy =>
    obtain ⟨ys, rfl⟩ := block hy
    exact .branch (ihc fun t ht => hu t (by simp [ht])) (ihy fun t ht => hu t (by simp [ht]))
      .unit (.inl rfl)
  | branchElse _ _ hy _ ho hn ihc ihy ihn =>
    obtain ⟨ys, rfl⟩ := block hy
    refine .branch (ihc fun t ht => hu t (by simp [ht])) (ihy fun t ht => hu t (by simp [ht]))
      (ihn fun t ht => hu t (by simp [ht])) (.inr ?_)
    obtain rfl | rfl := ho
    · exact .inl (block hn)
    · cases hn <;> exact .inr ⟨_, _, _, rfl⟩

/-- **The tree of a source is a surface tree.** -/
theorem surface_of_readSource {source : String} {file : Option String} {e : Expr}
    (h : readSource source file = some (.ok e)) : e.Surface := by
  unfold readSource at h
  split at h
  · next ts hts =>
    obtain ⟨es, rfl, hd⟩ := derives_of_parse h
    have hlex := Reader.lexical_of_scan hts
    have hi := hd.inner fun t ht => hlex t ((List.takeWhile_prefix _).subset ht)
    cases hi with
    | sequence h => exact ⟨es, rfl, h⟩
  · cases h

end ExprScript
