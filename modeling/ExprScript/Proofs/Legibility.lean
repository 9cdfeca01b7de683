import ExprScript.Expr.Printer
import ExprScript.Proofs.Agreement
import ExprScript.Proofs.Munch
import Mathlib.Data.List.Nodup

/-!
# Trees can be told from their texts

Two trees with one text are the same tree. A text is read from the left: the name of a node runs up
to the first parenthesis or comma and says what the node is made of, and each part ends where it
ends, whatever comes after it. Strings are the only parts that may hold parentheses and commas
themselves, and those stand between quotes. Floating-point numbers are told apart as far as their
own texts go.

* `IsRun`, `IsRun.append_inj`: runs of characters that end at a parenthesis or a comma.
* `toDigits_inj`, `Number.integerChars_inj`: a number is known by its digits.
* `Text.quotedChars_append_inj`: a quoted text ends at its closing quote.
* `Expr.SameTree`: equality of trees, except for floating-point numbers that are written alike.
* `Expr.Readable`, **`Expr.readable`**: a text begins with the text of at most one tree.
* **`Expr.sameTree_of_text`**: trees with one text are the same.
-/

namespace ExprScript

/-! ## Runs of characters -/

/-- A character that ends no run: neither a parenthesis nor a comma. -/
def isRunChar (c : Char) : Bool := c != '(' && c != ',' && c != ')'

/-- The text has neither parentheses nor commas. -/
def IsRun (cs : List Char) : Prop := ∀ c ∈ cs, isRunChar c = true

instance (cs : List Char) : Decidable (IsRun cs) :=
  decidable_of_iff (cs.all isRunChar = true) List.all_eq_true

/-- The text is at its end, or goes on with a parenthesis or a comma. -/
def Delimited (r : List Char) : Prop := ∀ c s, r = c :: s → isRunChar c = false

theorem Delimited.nil : Delimited [] := by
  intro c s h
  cases h

theorem Delimited.cons {c : Char} (hc : isRunChar c = false) (s : List Char) :
    Delimited (c :: s) := by
  intro d t h
  cases h
  exact hc

/-- **A run ends in one place.** -/
theorem IsRun.append_inj {a b r s : List Char} (ha : IsRun a) (hb : IsRun b) (hr : Delimited r)
    (hs : Delimited s) (h : a ++ r = b ++ s) : a = b ∧ r = s := by
  obtain ⟨htake, hdrop⟩ := span_append ha hr
  obtain ⟨htake', hdrop'⟩ := span_append hb hs
  rw [h] at htake hdrop
  exact ⟨htake.symm.trans htake', hdrop.symm.trans hdrop'⟩

theorem IsRun.append {a b : List Char} (ha : IsRun a) (hb : IsRun b) : IsRun (a ++ b) := by
  intro c hc
  exact (List.mem_append.1 hc).elim (ha c) (hb c)

theorem IsRun.cons {c : Char} {cs : List Char} (hc : isRunChar c = true) (h : IsRun cs) :
    IsRun (c :: cs) :=
  List.forall_mem_cons.2 ⟨hc, h⟩

theorem IsRun.of_subset {a b : List Char} (hb : IsRun b) (h : a ⊆ b) : IsRun a :=
  fun c hc => hb c (h hc)

theorem isRun_of_class {p : Char → Bool} (hopen : p '(' = false) (hcomma : p ',' = false)
    (hclose : p ')' = false) {cs : List Char} (h : ∀ c ∈ cs, p c = true) : IsRun cs := by
  intro c hc
  have hne {d : Char} (hd : p d = false) : c ≠ d := by
    rintro rfl
    rw [h c hc] at hd
    cases hd
  simp [isRunChar, hne hopen, hne hcomma, hne hclose]

theorem isRun_of_word {x : String} (hx : Pattern.word.Accepts x.toList) : IsRun x.toList := by
  generalize x.toList = cs at hx
  cases hx with
  | word hc hcs =>
    have hstart := isRun_of_class (p := isWordStart) rfl rfl rfl (List.forall_mem_singleton.2 hc)
    exact hstart.append (isRun_of_class rfl rfl rfl hcs)

/-! ## Numbers -/

theorem exists_digitChar {b n : Nat} (hb : 1 < b) {c : Char} (hc : c ∈ Nat.toDigits b n) :
    ∃ d < b, c = d.digitChar := by
  induction n using Nat.strongRecOn with
  | ind n ih =>
    rw [Nat.toDigits_eq_if hb] at hc
    split at hc
    · next hn => exact ⟨n, hn, List.mem_singleton.1 hc⟩
    · next hn =>
      rcases List.mem_append.1 hc with hc | hc
      · exact ih (n / b) (Nat.div_lt_self (by omega) hb) hc
      · exact ⟨n % b, Nat.mod_lt n (by omega), List.mem_singleton.1 hc⟩

theorem digitChar_inj {m n : Nat} (hm : m < 16) (hn : n < 16) (h : m.digitChar = n.digitChar) :
    m = n := by
  have hall : ∀ i j : Fin 16, i.val.digitChar = j.val.digitChar → i = j := by decide
  exact Fin.mk.inj (hall ⟨m, hm⟩ ⟨n, hn⟩ h)

theorem toDigits_inj {b m n : Nat} (hb : 1 < b) (hb' : b ≤ 16)
    (h : Nat.toDigits b m = Nat.toDigits b n) : m = n := by
  induction m using Nat.strongRecOn generalizing n with
  | ind m ih =>
    rw [Nat.toDigits_eq_if hb (n := m), Nat.toDigits_eq_if hb (n := n)] at h
    split at h <;> split at h
    · next hm hn => exact digitChar_inj (by omega) (by omega) (List.singleton_inj.1 h)
    · simp [List.singleton_eq_append_iff, Nat.toDigits_ne_nil] at h
    · simp [List.append_eq_singleton_iff, Nat.toDigits_ne_nil] at h
    · next hm hn =>
      obtain ⟨hq, hr⟩ := List.append_inj' h rfl
      have hdiv := ih (m / b) (Nat.div_lt_self (by omega) hb) hq
      have hmod := digitChar_inj (Nat.lt_of_lt_of_le (Nat.mod_lt m (by omega)) hb')
        (Nat.lt_of_lt_of_le (Nat.mod_lt n (by omega)) hb') (List.singleton_inj.1 hr)
      rw [← Nat.div_add_mod m b, ← Nat.div_add_mod n b, hdiv, hmod]

namespace Number

theorem isRun_toDigits (n : Nat) : IsRun (Nat.toDigits 10 n) :=
  isRun_of_class (p := Char.isDigit) rfl rfl rfl fun _ hc =>
    Nat.isDigit_of_mem_toDigits (by decide) (by decide) hc

theorem isRun_integerChars (i : Int) : IsRun (integerChars i) := by
  unfold integerChars
  split
  · exact .cons (by decide) (isRun_toDigits _)
  · exact isRun_toDigits _

theorem integerChars_inj {i j : Int} (h : integerChars i = integerChars j) : i = j := by
  have hminus (n : Nat) : '-' ∉ Nat.toDigits 10 n := fun hmem =>
    absurd (Nat.isDigit_of_mem_toDigits (by decide) (by decide) hmem) (by decide)
  unfold integerChars at h
  split at h <;> split at h
  · next hi hj =>
    have := toDigits_inj (by decide) (by decide) (List.cons.inj h).2
    omega
  · exact absurd (h ▸ List.mem_cons_self) (hminus j.natAbs)
  · exact absurd (h ▸ List.mem_cons_self) (hminus i.natAbs)
  · next hi hj =>
    have := toDigits_inj (by decide) (by decide) h
    omega

theorem isRun_replicate_zero (n : Nat) : IsRun (List.replicate n '0') := by
  intro c hc
  rw [List.eq_of_mem_replicate hc]
  decide

theorem isRun_plainText {ds : List Char} (hds : IsRun ds) (e : Int) : IsRun (plainText ds e) := by
  have htake (n : Nat) : IsRun (ds.take n) := hds.of_subset (List.take_subset n ds)
  have hdrop (n : Nat) : IsRun (ds.drop n) := hds.of_subset (List.drop_subset n ds)
  unfold plainText
  split
  · exact (IsRun.append (by decide) (isRun_replicate_zero _)).append hds
  · refine (((htake _).append (isRun_replicate_zero _)).append (by decide)).append ?_
    split
    · decide
    · exact hdrop _

theorem isRun_exponentText {ds : List Char} (hds : IsRun ds) (e : Int) :
    IsRun (exponentText ds e) := by
  unfold exponentText
  refine (((hds.of_subset (List.take_subset 1 ds)).append ?_).append (by decide)).append
    (isRun_integerChars e)
  split
  · exact List.forall_mem_nil _
  · exact .cons (by decide) (hds.of_subset (List.drop_subset 1 ds))

theorem isRun_floatChars (layout : Layout) (x : Float) : IsRun (floatChars layout x) := by
  have hsigned (text : List Char) (h : IsRun text) :
      IsRun (if isNegative x then '-' :: text else text) := by
    split
    · exact .cons (by decide) h
    · exact h
  unfold floatChars
  cases shape x with
  | nan => exact (by decide : IsRun ['N', 'a', 'N'])
  | infinite => exact hsigned ['i', 'n', 'f'] (by decide)
  | finite m q =>
    refine hsigned _ ?_
    split
    · decide
    · unfold Layout.write
      dsimp only
      split
      · exact isRun_plainText (isRun_toDigits _) _
      · exact isRun_exponentText (isRun_toDigits _) _

end Number

/-! ## Quoted text -/

namespace Text

theorem short?_of_shortEscape? {c d : Char} (h : shortEscape? c = some d) :
    Escape.short? d = some c := by
  unfold shortEscape? at h
  split at h <;> cases h <;> rfl

/-- A character is spelt by a short escape, by its code point, or as itself. -/
theorem escapes_cases (c : Char) :
    (∃ d, Escape.short? d = some c ∧ escapes c = ['\\', d]) ∨ escapes c = codeEscape c ∨
      (escapes c = [c] ∧ c ≠ '"' ∧ c ≠ '\\') := by
  unfold escapes
  split
  · next d hd => exact .inl ⟨d, short?_of_shortEscape? hd, rfl⟩
  · next hnone =>
    split
    · exact .inr (.inl rfl)
    · refine .inr (.inr ⟨rfl, ?_, ?_⟩) <;> rintro rfl <;> cases hnone

theorem codeEscape_append_inj {c d : Char} {r s : List Char}
    (h : codeEscape c ++ r = codeEscape d ++ s) : c = d ∧ r = s := by
  have hdigits (c : Char) : ∀ x ∈ Nat.toDigits 16 c.toNat, (x != '\x7d') = true := by
    intro x hx
    obtain ⟨n, hn, rfl⟩ := exists_digitChar (by decide) hx
    have hall : ∀ i : Fin 16, (i.val.digitChar != '\x7d') = true := by decide
    exact hall ⟨n, hn⟩
  have hbrace (t : List Char) : ∀ x u, '\x7d' :: t = x :: u → (x != '\x7d') = false := by
    rintro x u ⟨⟩
    rfl
  simp only [codeEscape, List.append_assoc, List.cons_append, List.nil_append,
    List.cons.injEq, true_and] at h
  obtain ⟨htake, hdrop⟩ := span_append (hdigits c) (hbrace r)
  obtain ⟨htake', hdrop'⟩ := span_append (hdigits d) (hbrace s)
  rw [h] at htake hdrop
  have hcode := toDigits_inj (by decide) (by decide) (htake.symm.trans htake')
  exact ⟨Char.toNat_inj.1 hcode, (List.cons.inj (hdrop.symm.trans hdrop')).2⟩

/-- No spelling of a character begins another. -/
theorem escapes_append_inj {c d : Char} {r s : List Char}
    (h : escapes c ++ r = escapes d ++ s) : c = d ∧ r = s := by
  rcases escapes_cases c with ⟨x, hx, hc⟩ | hc | ⟨hc, -, hslash⟩ <;>
    rcases escapes_cases d with ⟨y, hy, hd⟩ | hd | ⟨hd, -, hslash'⟩ <;> rw [hc, hd] at h
  · obtain ⟨rfl, hrest⟩ : x = y ∧ r = s := by simpa using h
    exact ⟨Option.some.inj (hx.symm.trans hy), hrest⟩
  · cases (List.cons.inj (List.cons.inj h).2).1
    cases hx
  · exact absurd (List.cons.inj h).1.symm hslash'
  · cases (List.cons.inj (List.cons.inj h).2).1
    cases hy
  · exact codeEscape_append_inj h
  · exact absurd (List.cons.inj h).1.symm hslash'
  · exact absurd (List.cons.inj h).1 hslash
  · exact absurd (List.cons.inj h).1 hslash
  · exact ⟨(List.cons.inj h).1, (List.cons.inj h).2⟩

theorem quote_ne_escapes (c : Char) (r s : List Char) : '"' :: r ≠ escapes c ++ s := by
  intro h
  rcases escapes_cases c with ⟨d, -, hc⟩ | hc | ⟨hc, hquote, -⟩ <;> rw [hc] at h
  · cases (List.cons.inj h).1
  · cases (List.cons.inj h).1
  · exact hquote (List.cons.inj h).1.symm

/-- **A quoted text ends at its closing quote**, and what stands before it is known. -/
theorem quotedChars_append_inj {cs ds r s : List Char}
    (h : quotedChars cs ++ r = quotedChars ds ++ s) : cs = ds ∧ r = s := by
  have hbody : cs.flatMap escapes ++ '"' :: r = ds.flatMap escapes ++ '"' :: s := by
    simpa [quotedChars] using h
  clear h
  induction cs generalizing ds with
  | nil =>
    cases ds with
    | nil => exact ⟨rfl, (List.cons.inj hbody).2⟩
    | cons d ds =>
      rw [List.flatMap_cons, List.append_assoc] at hbody
      exact absurd hbody (quote_ne_escapes d _ _)
  | cons c cs ih =>
    cases ds with
    | nil =>
      rw [List.flatMap_cons, List.append_assoc] at hbody
      exact absurd hbody.symm (quote_ne_escapes c _ _)
    | cons d ds =>
      rw [List.flatMap_cons, List.flatMap_cons, List.append_assoc, List.append_assoc] at hbody
      obtain ⟨rfl, hrest⟩ := escapes_append_inj hbody
      obtain ⟨rfl, hrs⟩ := ih hrest
      exact ⟨rfl, hrs⟩

end Text

/-! ## Nodes -/

namespace Expr

/-- The name of a kind of node. -/
def Form.name : Form → String
  | literal tag => tag.name
  | var => "Variable"
  | assign => "Assign"
  | arithmetic op => op.name
  | logical op => op.name
  | not => "Not"
  | comparison op => op.name
  | branch => "If"
  | loop => "While"
  | sequence => "Sequence"
  | program => "Program"
  | print => "Print"

/-- All kinds of nodes. -/
def Form.all : List Form :=
  [.unit, .integer, .float, .string, .boolean].map literal ++
    [.add, .subtract, .multiply, .divide].map arithmetic ++
    [.and, .or].map logical ++
    [.less, .lessEq, .greater, .greaterEq, .equal, .notEqual].map comparison ++
    [var, assign, not, branch, loop, sequence, program, print]

theorem Form.mem_all (form : Form) : form ∈ all := by
  cases form with
  | literal tag => cases tag <;> decide
  | arithmetic op | logical op | comparison op => cases op <;> decide
  | _ => decide

theorem Form.name_inj {a b : Form} (h : a.name = b.name) : a = b := by
  have hnodup : (all.map name).Nodup := by decide
  exact List.inj_on_of_nodup_map hnodup a.mem_all b.mem_all h

theorem Form.isRun_name (form : Form) : IsRun form.name.toList := by
  have hall : ∀ form ∈ all, IsRun form.name.toList := by decide
  exact hall form form.mem_all

theorem Form.name_ne_nil (form : Form) : form.name.toList ≠ [] := by
  have hall : ∀ form ∈ all, form.name.toList ≠ [] := by decide
  exact hall form form.mem_all

end Expr

/-- What the text of a literal has after its name. -/
def Value.body : Value → List Char
  | .unit => []
  | .string s => '(' :: (Text.quotedChars s.toList ++ [')'])
  | v => '(' :: (v.text.toList ++ [')'])

namespace Expr

/-- What the text of a node has after its name. -/
def body : Expr → List Char
  | literal v => v.body
  | var x => '(' :: (x.toList ++ [')'])
  | assign x e => '(' :: (x.toList ++ ',' :: ' ' :: (e.text.toList ++ [')']))
  | e => '(' :: ((textAll e.children).toList ++ [')'])

theorem toList_text (e : Expr) : e.text.toList = e.form.name.toList ++ e.body := by
  cases e with
  | literal v => cases v <;> simp [text, form, Form.name, body, Value.body, Value.literalText,
      Value.tag, Tag.name]
  | _ => simp [text, textAll, form, Form.name, body, children]

theorem delimited_body_append (e : Expr) {r : List Char} (hr : Delimited r) :
    Delimited (e.body ++ r) := by
  cases e with
  | literal v =>
    cases v with
    | unit => exact hr
    | _ => exact .cons rfl _
  | _ => exact .cons rfl _

/-- The kind of a node is known by its text. -/
theorem form_of_text_append {e f : Expr} {r s : List Char} (hr : Delimited r) (hs : Delimited s)
    (h : e.text.toList ++ r = f.text.toList ++ s) :
    e.form = f.form ∧ e.body ++ r = f.body ++ s := by
  rw [toList_text, toList_text, List.append_assoc, List.append_assoc] at h
  obtain ⟨hname, hbody⟩ := e.form.isRun_name.append_inj f.form.isRun_name
    (e.delimited_body_append hr) (f.delimited_body_append hs) h
  exact ⟨Form.name_inj (String.toList_inj.1 hname), hbody⟩

/-! ## Trees -/

/-- The same tree, except that floating-point numbers only have to be written alike. -/
inductive SameTree : Expr → Expr → Prop
  | literal (v : Value) : SameTree (literal v) (literal v)
  | float {x y : Float} (h : Number.floatText x = Number.floatText y) :
      SameTree (literal (.float x)) (literal (.float y))
  | var (x : String) : SameTree (var x) (var x)
  | assign (x : String) {e e' : Expr} (h : SameTree e e') : SameTree (assign x e) (assign x e')
  | arithmetic (op : Arithmetic) {l l' r r' : Expr} (hl : SameTree l l') (hr : SameTree r r') :
      SameTree (arithmetic op l r) (arithmetic op l' r')
  | logical (op : Logical) {l l' r r' : Expr} (hl : SameTree l l') (hr : SameTree r r') :
      SameTree (logical op l r) (logical op l' r')
  | not {e e' : Expr} (h : SameTree e e') : SameTree (not e) (not e')
  | comparison (op : Comparison) {l l' r r' : Expr} (hl : SameTree l l') (hr : SameTree r r') :
      SameTree (comparison op l r) (comparison op l' r')
  | branch {c c' y y' n n' : Expr} (hc : SameTree c c') (hy : SameTree y y') (hn : SameTree n n') :
      SameTree (branch c y n) (branch c' y' n')
  | loop {c c' b b' : Expr} (hc : SameTree c c') (hb : SameTree b b') :
      SameTree (loop c b) (loop c' b')
  | sequence {es es' : List Expr} (h : List.Forall₂ SameTree es es') :
      SameTree (sequence es) (sequence es')
  | program {es es' : List Expr} (h : List.Forall₂ SameTree es es') :
      SameTree (program es) (program es')
  | print {e e' : Expr} (h : SameTree e e') : SameTree (print e) (print e')

/-- The names of an expression have neither parentheses nor commas. -/
def RunNames (e : Expr) : Prop := ∀ x ∈ e.names, IsRun x.toList

theorem RunNames.child {e : Expr} (h : e.RunNames) : ∀ c ∈ e.children, c.RunNames := by
  have hall (es : List Expr) : ∀ c ∈ es, c.names ⊆ namesAll es := by
    induction es with
    | nil => exact List.forall_mem_nil _
    | cons e es ih =>
      refine List.forall_mem_cons.2 ⟨List.subset_append_left .., fun c hc => ?_⟩
      exact List.Subset.trans (ih c hc) (List.subset_append_right ..)
  have hchildren : namesAll e.children ⊆ e.names := by
    cases e <;> simp [namesAll, children, names]
  exact fun c hc x hx => h x (hchildren (hall e.children c hc hx))

/-- A text that begins with that of `e`, up to a comma, a parenthesis or its end, begins with that
of no other tree. -/
def Readable (e : Expr) : Prop :=
  e.RunNames → ∀ f : Expr, f.RunNames → ∀ r s : List Char, Delimited r → Delimited s →
    e.text.toList ++ r = f.text.toList ++ s → e.SameTree f ∧ r = s

/-- The items of a list after its first, with the comma in front of them. -/
def moreText : List Expr → List Char
  | [] => []
  | es => ',' :: ' ' :: (textAll es).toList

theorem toList_textAll_cons (e : Expr) (es : List Expr) :
    (textAll (e :: es)).toList = e.text.toList ++ moreText es := by
  cases es <;> simp [textAll, moreText]

theorem delimited_moreText_append (es : List Expr) (r : List Char) :
    Delimited (moreText es ++ ')' :: r) := by
  cases es <;> exact .cons rfl _

theorem close_ne_textAll (e : Expr) (es : List Expr) (r s : List Char) :
    ')' :: r ≠ (textAll (e :: es)).toList ++ s := by
  intro h
  rw [toList_textAll_cons, toList_text] at h
  obtain ⟨c, cs, hname⟩ := List.exists_cons_of_ne_nil e.form.name_ne_nil
  have hc : isRunChar c = true := e.form.isRun_name c (hname ▸ List.mem_cons_self)
  simp only [hname, List.cons_append, List.cons.injEq] at h
  rw [← h.1] at hc
  cases hc

/-- A list ends at its closing parenthesis, and its items are known. -/
theorem textAll_append_inj {es fs : List Expr} (ih : ∀ e ∈ es, e.Readable)
    (hes : ∀ e ∈ es, e.RunNames) (hfs : ∀ f ∈ fs, f.RunNames) {r s : List Char}
    (h : (textAll es).toList ++ ')' :: r = (textAll fs).toList ++ ')' :: s) :
    List.Forall₂ SameTree es fs ∧ r = s := by
  induction es generalizing fs with
  | nil =>
    cases fs with
    | nil => exact ⟨.nil, (List.cons.inj h).2⟩
    | cons f fs => exact absurd h (close_ne_textAll f fs _ _)
  | cons e es ihes =>
    cases fs with
    | nil => exact absurd h.symm (close_ne_textAll e es _ _)
    | cons f fs =>
      rw [List.forall_mem_cons] at ih hes hfs
      rw [toList_textAll_cons, toList_textAll_cons, List.append_assoc, List.append_assoc] at h
      obtain ⟨hef, hmore⟩ := ih.1 hes.1 f hfs.1 _ _ (delimited_moreText_append es r)
        (delimited_moreText_append fs s) h
      have hrest : List.Forall₂ SameTree es fs ∧ r = s := by
        cases es with
        | nil =>
          cases fs with
          | nil => exact ⟨.nil, (List.cons.inj hmore).2⟩
          | cons f fs => cases (List.cons.inj hmore).1
        | cons e es =>
          cases fs with
          | nil => cases (List.cons.inj hmore).1
          | cons f fs =>
            exact ihes ih.2 hes.2 hfs.2 (List.cons.inj (List.cons.inj hmore).2).2
      exact ⟨.cons hef hrest.1, hrest.2⟩

theorem isRun_text_of_tag {v : Value} (h : v.tag ≠ .string) : IsRun v.text.toList := by
  cases v with
  | unit => exact (by decide : IsRun "Unit".toList)
  | integer i => simpa [Value.text, Number.integerText] using Number.isRun_integerChars i.toInt
  | float x => simpa [Value.text, Number.floatText] using Number.isRun_floatChars _ x
  | string s => exact absurd rfl h
  | boolean b =>
    have hall : ∀ b, IsRun (Value.booleanText b).toList := by decide
    exact hall b

/-- A literal ends at its closing parenthesis, and its value is known as far as it is written. -/
theorem literal_append_inj {v w : Value} (htag : v.tag = w.tag) {r s : List Char}
    (h : v.body ++ r = w.body ++ s) : (literal v).SameTree (literal w) ∧ r = s := by
  have hscalar (hv : v.tag ≠ .string)
      (h : '(' :: (v.text.toList ++ [')']) ++ r = '(' :: (w.text.toList ++ [')']) ++ s) :
      v.text = w.text ∧ r = s := by
    simp only [List.cons_append, List.append_assoc, List.nil_append, List.cons.injEq,
      true_and] at h
    obtain ⟨hvw, hrest⟩ := (isRun_text_of_tag hv).append_inj (isRun_text_of_tag (htag ▸ hv))
      (.cons rfl r) (.cons rfl s) h
    exact ⟨String.toList_inj.1 hvw, (List.cons.inj hrest).2⟩
  cases v <;> cases w <;> cases htag
  · exact ⟨.literal .unit, h⟩
  · next i j =>
    obtain ⟨hij, hrs⟩ := hscalar nofun h
    have heq := Number.integerChars_inj (String.ofList_injective hij)
    rw [Int64.toInt_inj.1 heq]
    exact ⟨.literal _, hrs⟩
  · next x y =>
    obtain ⟨hxy, hrs⟩ := hscalar nofun h
    exact ⟨.float hxy, hrs⟩
  · next a b =>
    have hquoted : Text.quotedChars a.toList ++ ')' :: r =
        Text.quotedChars b.toList ++ ')' :: s := by
      simpa [Value.body] using h
    obtain ⟨hab, hrest⟩ := Text.quotedChars_append_inj hquoted
    rw [String.toList_inj.1 hab]
    exact ⟨.literal _, (List.cons.inj hrest).2⟩
  · next a b =>
    obtain ⟨hab, hrs⟩ := hscalar nofun h
    have hinj : ∀ a b, Value.booleanText a = Value.booleanText b → a = b := by decide
    rw [hinj a b hab]
    exact ⟨.literal _, hrs⟩

/-- **One node**: a tree can be read off its text if its parts can. -/
theorem readable_of_children {e : Expr} (ih : ∀ c ∈ e.children, c.Readable) : e.Readable := by
  intro he f hf r s hr hs h
  obtain ⟨hform, hbody⟩ := form_of_text_append hr hs h
  -- Most nodes are written as their children and nothing else.
  have hitems (heb : e.body = '(' :: ((textAll e.children).toList ++ [')']))
      (hfb : f.body = '(' :: ((textAll f.children).toList ++ [')'])) :
      List.Forall₂ SameTree e.children f.children ∧ r = s := by
    rw [heb, hfb] at hbody
    refine textAll_append_inj ih he.child hf.child ?_
    simpa using hbody
  cases e with
  | literal v =>
    cases f with
    | literal w => exact literal_append_inj (Form.literal.inj hform) hbody
    | _ => cases hform
  | var x =>
    cases f <;> cases hform
    next y =>
    have hname : x.toList ++ ')' :: r = y.toList ++ ')' :: s := by simpa [body] using hbody
    obtain ⟨hxy, hrest⟩ := (he x (by simp [names])).append_inj (hf y (by simp [names]))
      (.cons rfl r) (.cons rfl s) hname
    rw [String.toList_inj.1 hxy]
    exact ⟨.var y, (List.cons.inj hrest).2⟩
  | assign x a =>
    cases f <;> cases hform
    next y b =>
    have hname : x.toList ++ ',' :: ' ' :: (a.text.toList ++ ')' :: r) =
        y.toList ++ ',' :: ' ' :: (b.text.toList ++ ')' :: s) := by simpa [body] using hbody
    obtain ⟨hxy, hrest⟩ := (he x (by simp [names])).append_inj (hf y (by simp [names]))
      (.cons rfl _) (.cons rfl _) hname
    have hpart := (List.cons.inj (List.cons.inj hrest).2).2
    obtain ⟨hab, hclose⟩ := ih a (by simp [children]) (he.child a (by simp [children])) b
      (hf.child b (by simp [children])) _ _ (.cons rfl r) (.cons rfl s) hpart
    rw [String.toList_inj.1 hxy]
    exact ⟨.assign y hab, (List.cons.inj hclose).2⟩
  | arithmetic op l r =>
    cases f <;> cases hform
    have ⟨.cons hl (.cons hr .nil), hrs⟩ := hitems rfl rfl
    exact ⟨.arithmetic op hl hr, hrs⟩
  | logical op l r =>
    cases f <;> cases hform
    have ⟨.cons hl (.cons hr .nil), hrs⟩ := hitems rfl rfl
    exact ⟨.logical op hl hr, hrs⟩
  | comparison op l r =>
    cases f <;> cases hform
    have ⟨.cons hl (.cons hr .nil), hrs⟩ := hitems rfl rfl
    exact ⟨.comparison op hl hr, hrs⟩
  | not a =>
    cases f <;> cases hform
    have ⟨.cons ha .nil, hrs⟩ := hitems rfl rfl
    exact ⟨.not ha, hrs⟩
  | print a =>
    cases f <;> cases hform
    have ⟨.cons ha .nil, hrs⟩ := hitems rfl rfl
    exact ⟨.print ha, hrs⟩
  | branch c y n =>
    cases f <;> cases hform
    have ⟨.cons hc (.cons hy (.cons hn .nil)), hrs⟩ := hitems rfl rfl
    exact ⟨.branch hc hy hn, hrs⟩
  | loop c b =>
    cases f <;> cases hform
    have ⟨.cons hc (.cons hb .nil), hrs⟩ := hitems rfl rfl
    exact ⟨.loop hc hb, hrs⟩
  | sequence es =>
    cases f <;> cases hform
    exact ⟨.sequence (hitems rfl rfl).1, (hitems rfl rfl).2⟩
  | program es =>
    cases f <;> cases hform
    exact ⟨.program (hitems rfl rfl).1, (hitems rfl rfl).2⟩

theorem sizeOf_lt_of_mem_children {c e : Expr} (h : c ∈ e.children) : sizeOf c < sizeOf e := by
  cases e with
  | literal | var => cases h
  | sequence es | program es =>
    have hitem : sizeOf c < sizeOf es := List.sizeOf_lt_of_mem h
    simp only [sequence.sizeOf_spec, program.sizeOf_spec]
    omega
  | _ =>
    simp only [children, List.mem_cons, List.not_mem_nil, or_false] at h
    rcases h with rfl | rfl | rfl <;> simp <;> omega

/-- **Every tree can be read off its text**, and so can the place where it ends. -/
theorem readable (e : Expr) : e.Readable :=
  readable_of_children fun c _ => readable c
termination_by sizeOf e
decreasing_by exact sizeOf_lt_of_mem_children ‹_›

/-- **Trees with one text are the same**, as long as their names are words. Strings may be any. -/
theorem sameTree_of_text {e f : Expr} (he : ∀ x ∈ e.names, Pattern.word.Accepts x.toList)
    (hf : ∀ x ∈ f.names, Pattern.word.Accepts x.toList) (h : e.text = f.text) : e.SameTree f := by
  have htext : e.text.toList ++ [] = f.text.toList ++ [] := by rw [h]
  have hread := e.readable (fun x hx => isRun_of_word (he x hx)) f
    (fun x hx => isRun_of_word (hf x hx)) [] [] .nil .nil htext
  exact hread.1

/-- Two numbers that are none, beside a string that looks like the rest of the text. -/
theorem sameTree_of_text_not_a_number :
    let tree (bits : UInt64) := program [assign "x" (literal (.float (Float.ofBits bits))),
      print (literal (.string "x), \"y\", Variable(x"))]
    let e := tree 0x7ff8000000000000
    let f := tree 0xfff8000000000001
    (∀ x ∈ e.names, Pattern.word.Accepts x.toList) ∧
      (∀ x ∈ f.names, Pattern.word.Accepts x.toList) ∧ e.text = f.text ∧ e.SameTree f := by
  intro tree e f
  have hname : ∀ x ∈ ["x"], Pattern.word.Accepts x.toList :=
    List.forall_mem_singleton.2 (.word rfl (List.forall_mem_nil _))
  have hnan : Number.floatText (Float.ofBits 0x7ff8000000000000) =
      Number.floatText (Float.ofBits 0xfff8000000000001) := by decide +kernel
  have htext : e.text = f.text := by
    simp only [e, f, tree, text, textAll, Value.literalText, Value.tag, Value.text, hnan]
  exact ⟨hname, hname, htext, sameTree_of_text hname hname htext⟩

end Expr

end ExprScript
