import ExprScript.Goal

/-!
# The grammar of programs

The language as a stratified grammar, with the tree of each production. Reading is driven by tables
of powers; the grammar knows nothing of them. Only kinds and values of tokens matter.

* `Level`: the five levels of binary operators; `Phrase`: the nonterminals.
* `Target`: a name in any number of parentheses.
* `Derives`: the productions.
* `Derives.exists_cons`, `Derives.endless`: how a phrase begins, and what is not in it.
* `Derives.target_of_var`: a phrase whose tree is a variable is a target.
-/

namespace ExprScript

/-- The levels of binary operators, from the loosest to the tightest. -/
inductive Level where
  | disjunction
  | conjunction
  | relation
  | sum
  | product
  deriving DecidableEq

/-- The tree of an operator of this level. -/
def Level.tree? : Level → Kind → Option (Expr → Expr → Expr)
  | disjunction, .or => some (.logical .or)
  | conjunction, .and => some (.logical .and)
  | relation, .less => some (.comparison .less)
  | relation, .lessEquals => some (.comparison .lessEq)
  | relation, .greater => some (.comparison .greater)
  | relation, .greaterEquals => some (.comparison .greaterEq)
  | relation, .equals => some (.comparison .equal)
  | relation, .notEquals => some (.comparison .notEqual)
  | sum, .plus => some (.arithmetic .add)
  | sum, .dash => some (.arithmetic .subtract)
  | product, .star => some (.arithmetic .multiply)
  | product, .slash => some (.arithmetic .divide)
  | _, _ => none

/-- The tokens that may stand between two operands. -/
def Kind.isInfix : Kind → Bool
  | .assignment | .or | .and | .less | .lessEquals | .greater | .greaterEquals | .equals
  | .notEquals | .plus | .dash | .star | .slash => true
  | _ => false

/-- What a list of tokens may be. -/
inductive Phrase where
  /-- The items of a program or block; their tree is the sequence of the trees. -/
  | items
  | expr
  | level (l : Level)
  | unary
  | primary
  | block
  | branch
  deriving DecidableEq

/-- The operands of the operators of a level, on the right. -/
def Level.tighter : Level → Phrase
  | disjunction => .level conjunction
  | conjunction => .level relation
  | relation => .level sum
  | sum => .level product
  | product => .unary

/-- A name in any number of parentheses. -/
inductive Target : List Token → String → Prop
  | name {t : Token} (ht : t.kind = .identifier) : Target [t] t.value
  | group {l r : Token} {u : List Token} {x : String} (hl : l.kind = .openParen)
      (hr : r.kind = .closeParen) (h : Target u x) : Target (l :: (u ++ [r])) x

/-- The productions of the grammar, with their trees. -/
inductive Derives : Phrase → List Token → Expr → Prop
  | noItems : Derives .items [] (.sequence [])
  | separated {t : Token} {u v : List Token} {e : Expr} {es : List Expr} (h : Derives .expr u e)
      (ht : t.kind = .semicolon) (hs : Derives .items v (.sequence es)) :
      Derives .items (u ++ t :: v) (.sequence (e :: es))
  /-- The separator may be left out after the last item. -/
  | lastItem {u : List Token} {e : Expr} (h : Derives .expr u e) : Derives .items u (.sequence [e])
  /-- The separator may be left out after a closing brace, before what is no infix operator. -/
  | closed {s t : Token} {u v : List Token} {e : Expr} {es : List Expr} (h : Derives .expr u e)
      (hu : u.getLast? = some s) (hs : s.kind = .closeCurly) (ht : t.kind.isInfix = false)
      (hv : Derives .items (t :: v) (.sequence es)) :
      Derives .items (u ++ t :: v) (.sequence (e :: es))
  | assign {t : Token} {u v : List Token} {x : String} {e : Expr} (hu : Target u x)
      (ht : t.kind = .assignment) (h : Derives .expr v e) :
      Derives .expr (u ++ t :: v) (.assign x e)
  | operation {u : List Token} {e : Expr} (h : Derives (.level .disjunction) u e) :
      Derives .expr u e
  | binary {l : Level} {t : Token} {u v : List Token} {tree : Expr → Expr → Expr} {a b : Expr}
      (ha : Derives (.level l) u a) (ht : l.tree? t.kind = some tree) (hb : Derives l.tighter v b) :
      Derives (.level l) (u ++ t :: v) (tree a b)
  | operand {l : Level} {u : List Token} {e : Expr} (h : Derives l.tighter u e) :
      Derives (.level l) u e
  | not {t : Token} {u : List Token} {e : Expr} (ht : t.kind = .not) (h : Derives .unary u e) :
      Derives .unary (t :: u) (.not e)
  /-- A minus sign changes the number after it. -/
  | negativeInteger {t : Token} {u : List Token} {i : Int64} (ht : t.kind = .dash)
      (h : Derives .unary u (.literal (.integer i))) :
      Derives .unary (t :: u) (.literal (.integer (-i)))
  | negativeFloat {t : Token} {u : List Token} {x : Float} (ht : t.kind = .dash)
      (h : Derives .unary u (.literal (.float x))) :
      Derives .unary (t :: u) (.literal (.float (-x)))
  | simple {u : List Token} {e : Expr} (h : Derives .primary u e) : Derives .unary u e
  | integer {t : Token} {i : Int64} (ht : t.kind = .number) (hp : '.' ∉ t.value.toList)
      (hi : Number.integer? t.value.toList = some i) :
      Derives .primary [t] (.literal (.integer i))
  /-- A number with a point is a floating-point number. -/
  | float {t : Token} {x : Float} (ht : t.kind = .number) (hp : '.' ∈ t.value.toList)
      (hx : Number.fraction? t.value.toList = some x) : Derives .primary [t] (.literal (.float x))
  | name {t : Token} (ht : t.kind = .identifier) : Derives .primary [t] (.var t.value)
  | string {t : Token} (ht : t.kind = .string) :
      Derives .primary [t] (.literal (.string t.value))
  | truth {t : Token} (ht : t.kind = .trueWord) : Derives .primary [t] (.literal (.boolean true))
  | falsity {t : Token} (ht : t.kind = .falseWord) :
      Derives .primary [t] (.literal (.boolean false))
  | unit {l r : Token} (hl : l.kind = .openParen) (hr : r.kind = .closeParen) :
      Derives .primary [l, r] (.literal .unit)
  | group {l r : Token} {u : List Token} {e : Expr} (hl : l.kind = .openParen)
      (hr : r.kind = .closeParen) (h : Derives .expr u e) : Derives .primary (l :: (u ++ [r])) e
  | print {t l r : Token} {u : List Token} {e : Expr} (ht : t.kind = .printWord)
      (hl : l.kind = .openParen) (hr : r.kind = .closeParen) (h : Derives .expr u e) :
      Derives .primary (t :: l :: (u ++ [r])) (.print e)
  | braces {u : List Token} {e : Expr} (h : Derives .block u e) : Derives .primary u e
  | choice {u : List Token} {e : Expr} (h : Derives .branch u e) : Derives .primary u e
  | loop {t : Token} {u v : List Token} {c b : Expr} (ht : t.kind = .whileWord)
      (hc : Derives .expr u c) (hb : Derives .block v b) :
      Derives .primary (t :: (u ++ v)) (.loop c b)
  | block {l r : Token} {u : List Token} {e : Expr} (hl : l.kind = .openCurly)
      (hr : r.kind = .closeCurly) (h : Derives .items u e) : Derives .block (l :: (u ++ [r])) e
  | branch {t : Token} {u v : List Token} {c y : Expr} (ht : t.kind = .ifWord)
      (hc : Derives .expr u c) (hy : Derives .block v y) :
      Derives .branch (t :: (u ++ v)) (.branch c y .unit)
  | branchElse {s t : Token} {u v w : List Token} {c y n : Expr} {no : Phrase}
      (ht : t.kind = .ifWord) (hc : Derives .expr u c) (hy : Derives .block v y)
      (hs : s.kind = .elseWord) (ho : no = .block ∨ no = .branch) (hn : Derives no w n) :
      Derives .branch (t :: (u ++ (v ++ s :: w))) (.branch c y n)

/-! ## Number tokens -/

theorem numberValue?_integer {text : String} {i : Int64} (hp : '.' ∉ text.toList)
    (hi : Number.integer? text.toList = some i) : numberValue? text = some (.integer i) := by
  rw [numberValue?, if_neg hp, hi, Option.map_some]

theorem numberValue?_float {text : String} {x : Float} (hp : '.' ∈ text.toList)
    (hx : Number.fraction? text.toList = some x) : numberValue? text = some (.float x) := by
  rw [numberValue?, if_pos hp, hx, Option.map_some]

theorem Derives.number {t : Token} {v : Value} (ht : t.kind = .number)
    (hv : numberValue? t.value = some v) : Derives .primary [t] (.literal v) := by
  by_cases hp : '.' ∈ t.value.toList
  · rw [numberValue?, if_pos hp] at hv
    obtain ⟨x, hx, rfl⟩ := Option.map_eq_some_iff.1 hv
    exact .float ht hp hx
  · rw [numberValue?, if_neg hp] at hv
    obtain ⟨i, hi, rfl⟩ := Option.map_eq_some_iff.1 hv
    exact .integer ht hp hi

theorem Derives.expr_of_unary {u : List Token} {e : Expr} (h : Derives .unary u e) :
    Derives .expr u e :=
  .operation (.operand (.operand (.operand (.operand (.operand h)))))

/-! ## Tokens of a phrase -/

theorem Level.kind_isInfix {l : Level} {k : Kind} {tree : Expr → Expr → Expr}
    (h : l.tree? k = some tree) : k.isInfix = true := by
  cases l <;> cases k <;> first | rfl | cases h

theorem Level.tree?_ne_var {l : Level} {k : Kind} {tree : Expr → Expr → Expr}
    (h : l.tree? k = some tree) (a b : Expr) (x : String) : tree a b ≠ .var x := by
  rintro hx
  cases l <;> cases k <;> cases h <;> cases hx

/-- No token of the list is an end. -/
def Endless (u : List Token) : Prop := ∀ t ∈ u, t.kind ≠ .eof

@[simp]
theorem endless_nil : Endless [] := by simp [Endless]

@[simp]
theorem endless_cons {t : Token} {u : List Token} :
    Endless (t :: u) ↔ t.kind ≠ .eof ∧ Endless u := by simp [Endless]

@[simp]
theorem endless_append {u v : List Token} : Endless (u ++ v) ↔ Endless u ∧ Endless v := by
  simp [Endless, or_imp, forall_and]

theorem Target.endless {u : List Token} {x : String} (h : Target u x) : Endless u := by
  induction h with
  | name ht => simp [ht]
  | group hl hr _ ih => simp [hl, hr, ih]

theorem Derives.endless {p : Phrase} {u : List Token} {e : Expr} (h : Derives p u e) :
    Endless u := by
  have infix_ne {k : Kind} (hk : k.isInfix = true) : k ≠ .eof := by rintro rfl; cases hk
  induction h with
  | noItems => simp
  | lastItem _ ih | operation _ ih | operand _ ih | simple _ ih | braces _ ih | choice _ ih =>
    exact ih
  | separated _ ht _ ihu ihv => simp [ht, ihu, ihv]
  | closed _ _ _ _ _ ihu ihv => exact endless_append.2 ⟨ihu, ihv⟩
  | assign hu ht _ ih => simp [ht, hu.endless, ih]
  | binary _ ht _ ihu ihv => simp [infix_ne (Level.kind_isInfix ht), ihu, ihv]
  | not ht _ ih | negativeInteger ht _ ih | negativeFloat ht _ ih => simp [ht, ih]
  | integer ht | float ht | name ht | string ht | truth ht | falsity ht => simp [ht]
  | unit hl hr => simp [hl, hr]
  | group hl hr _ ih | block hl hr _ ih => simp [hl, hr, ih]
  | print ht hl hr _ ih => simp [ht, hl, hr, ih]
  | loop ht _ _ ihu ihv | branch ht _ _ ihu ihv => simp [ht, ihu, ihv]
  | branchElse ht _ _ hs _ _ ihu ihv ihw => simp [ht, hs, ihu, ihv, ihw]

theorem Target.exists_cons {u : List Token} {x : String} (h : Target u x) :
    ∃ t v form, u = t :: v ∧ Grammar.standard.opening? t.kind = some form := by
  cases h with
  | name ht => exact ⟨_, _, .primary, rfl, by rw [ht]; rfl⟩
  | group hl => exact ⟨_, _, .group, rfl, by rw [hl]; rfl⟩

/-- **Every phrase but the empty list of items begins with a token that opens a form.** -/
theorem Derives.nil_or_cons {p : Phrase} {u : List Token} {e : Expr} (h : Derives p u e) :
    p = .items ∧ u = [] ∧ e = .sequence [] ∨
      ∃ t v form, u = t :: v ∧ Grammar.standard.opening? t.kind = some form := by
  have append {q : Phrase} {u' e'} (v : List Token) (hq : q ≠ .items)
      (ih : q = .items ∧ u' = [] ∧ e' = Expr.sequence [] ∨
        ∃ t v form, u' = t :: v ∧ Grammar.standard.opening? t.kind = some form) :
      ∃ t w form, u' ++ v = t :: w ∧ Grammar.standard.opening? t.kind = some form := by
    obtain ⟨hi, -⟩ | ⟨t, w, form, rfl, hf⟩ := ih
    · exact absurd hi hq
    · exact ⟨t, w ++ v, form, rfl, hf⟩
  have tighter_ne (l : Level) : l.tighter ≠ .items := by cases l <;> simp [Level.tighter]
  induction h with
  | noItems => exact .inl ⟨rfl, rfl, rfl⟩
  | separated _ _ _ ih | closed _ _ _ _ _ ih => exact .inr (append _ (by simp) ih)
  | lastItem _ ih | operation _ ih | simple _ ih | braces _ ih | choice _ ih =>
    exact .inr (by simpa using append [] (by simp) ih)
  | assign hu =>
    obtain ⟨t, w, form, rfl, hf⟩ := hu.exists_cons
    exact .inr ⟨t, _, form, rfl, hf⟩
  | binary _ _ _ ih => exact .inr (append _ (by simp) ih)
  | operand _ ih => exact .inr (by simpa using append [] (tighter_ne _) ih)
  | not ht | negativeInteger ht | negativeFloat ht =>
    exact .inr ⟨_, _, .signed, rfl, by rw [ht]; rfl⟩
  | integer ht | float ht | name ht | string ht | truth ht | falsity ht =>
    exact .inr ⟨_, _, .primary, rfl, by rw [ht]; rfl⟩
  | unit hl | group hl => exact .inr ⟨_, _, .group, rfl, by rw [hl]; rfl⟩
  | print ht => exact .inr ⟨_, _, .print, rfl, by rw [ht]; rfl⟩
  | loop ht => exact .inr ⟨_, _, .loop, rfl, by rw [ht]; rfl⟩
  | block hl => exact .inr ⟨_, _, .block, rfl, by rw [hl]; rfl⟩
  | branch ht | branchElse ht => exact .inr ⟨_, _, .branch, rfl, by rw [ht]; rfl⟩

theorem Derives.exists_cons {p : Phrase} {u : List Token} {e : Expr} (h : Derives p u e)
    (hp : p ≠ .items) : ∃ t v form, u = t :: v ∧ Grammar.standard.opening? t.kind = some form :=
  h.nil_or_cons.resolve_left fun hi => hp hi.1

/-- **A phrase whose tree is a variable is a target.** -/
theorem Derives.target_of_var {p : Phrase} {u : List Token} {x : String}
    (h : Derives p u (.var x)) : Target u x := by
  generalize he : Expr.var x = e at h
  induction h with
  | operation _ ih | operand _ ih | simple _ ih | braces _ ih | choice _ ih => exact ih he
  | name ht =>
    cases he
    exact .name ht
  | group hl hr _ ih => exact .group hl hr (ih he)
  | binary _ ht => exact absurd he.symm (Level.tree?_ne_var ht _ _ x)
  | block _ _ hi =>
    subst he
    cases hi
  | _ => cases he

end ExprScript
