import ExprScript.Proofs.Surface

/-!
# Spelled tokens

A lexeme is what a token says besides its place. A list of lexemes is spelled with single spaces
between them, and a string in quotes with only backslashes and quotes escaped. The tokens of such a
text are the lexemes again.

* `Escape.encode`: the spelling of a string; `Escape.decode_encode`.
* `Lexeme`, `Lexeme.text`, `spaced`: lexemes and their spelling.
* `Lexeme.Valid`: the lexemes that some pattern reads.
* **`Reader.scan_spaced`**: spelled lexemes are read back.
-/

namespace ExprScript

/-! ## Strings -/

namespace Escape

/-- The text with a backslash before each backslash and each quote. -/
def encode : List Char → List Char
  | [] => []
  | c :: cs => if c = '\\' ∨ c = '"' then '\\' :: c :: encode cs else c :: encode cs

theorem decode_cons {c : Char} (hc : c ≠ '\\') (cs : List Char) :
    decode (c :: cs) = c :: decode cs := by
  rw [decode.eq_def]
  split <;> simp_all

theorem decode_encode (cs : List Char) : decode (encode cs) = cs := by
  induction cs with
  | nil => rfl
  | cons c cs ih =>
    rw [encode]
    split
    · next h =>
      obtain rfl | rfl := h
      · rw [decode, short?, ih] <;> simp
      · rw [decode, short?, ih] <;> simp
    · next h =>
      rw [decode_cons (fun hc => h (.inl hc)), ih]

end Escape

theorem untilQuote?_encode (cs rest : List Char) :
    untilQuote? (Escape.encode cs ++ '"' :: rest) = some (Escape.encode cs ++ ['"']) := by
  induction cs with
  | nil => simp [Escape.encode, untilQuote?]
  | cons c cs ih =>
    rw [Escape.encode]
    split
    · next h =>
      have hn : c ≠ '\n' := by rintro rfl; simp at h
      rw [List.cons_append, List.cons_append, untilQuote?, if_neg hn, ih]
      · rfl
    · next h =>
      rw [List.cons_append, untilQuote?.eq_def]
      split <;> simp_all

/-! ## Classes of characters -/

theorem toNat_of_isDigit {c : Char} (h : c.isDigit = true) : 48 ≤ c.toNat ∧ c.toNat ≤ 57 := by
  simp only [Char.isDigit, Bool.and_eq_true, decide_eq_true_eq, ge_iff_le,
    UInt32.le_iff_toNat_le] at h
  exact h

theorem toNat_of_isWordStart {c : Char} (h : isWordStart c = true) :
    65 ≤ c.toNat ∧ c.toNat ≤ 122 := by
  rw [isWordStart, Bool.or_eq_true, decide_eq_true_eq] at h
  obtain h | rfl := h
  · obtain hupper | hlower := Bool.or_eq_true_iff.1 h
    · obtain ⟨hA, hZ⟩ : 'A'.val ≤ c.val ∧ c.val ≤ 'Z'.val := of_decide_eq_true hupper
      have h₁ : 65 ≤ c.toNat := UInt32.le_iff_toNat_le.1 hA
      have h₂ : c.toNat ≤ 90 := UInt32.le_iff_toNat_le.1 hZ
      omega
    · obtain ⟨ha, hz⟩ := Bool.and_eq_true_iff.1 hlower
      have h₁ : 97 ≤ c.toNat := UInt32.le_iff_toNat_le.1 (of_decide_eq_true ha)
      have h₂ : c.toNat ≤ 122 := UInt32.le_iff_toNat_le.1 (of_decide_eq_true hz)
      omega
  · decide

theorem isWordStart_of_isDigit {c : Char} (h : c.isDigit = true) : isWordStart c = false := by
  rw [Bool.eq_false_iff]
  intro hw
  have := toNat_of_isDigit h
  have := toNat_of_isWordStart hw
  omega

/-- No blank is a letter, a digit or a mark. -/
theorem isBlank_of_toNat {c : Char} (h₁ : 33 ≤ c.toNat) (h₂ : c.toNat ≤ 126) :
    Text.isBlank c = false := by
  rw [Bool.eq_false_iff]
  intro hb
  obtain ⟨r, hr, hlo, hhi⟩ := (Text.Ranges.holds_iff _ c).1 hb
  simp only [Text.blanks, List.mem_cons, List.not_mem_nil, or_false] at hr
  rcases hr with rfl | rfl | rfl | rfl | rfl | rfl | rfl | rfl | rfl | rfl <;>
    dsimp only at hlo hhi <;> omega

/-! ## Lexemes -/

/-- The kind and the value of a token. -/
structure Lexeme where
  kind : Kind
  value : String
  deriving DecidableEq

/-- What the token says besides its place. -/
def Token.lexeme (t : Token) : Lexeme := ⟨t.kind, t.value⟩

/-- The spelling of a lexeme. -/
def Lexeme.text (x : Lexeme) : List Char :=
  if x.kind = .string then '"' :: (Escape.encode x.value.toList ++ ['"']) else x.value.toList

/-- Lexemes with single spaces between them. -/
def spaced : List Lexeme → List Char
  | [] => []
  | [x] => x.text
  | x :: y :: xs => x.text ++ ' ' :: spaced (y :: xs)

/-- A lexeme that some pattern reads. -/
inductive Lexeme.Valid : Lexeme → Prop
  | word {x : String} {c : Char} {cs : List Char} (hx : x.toList = c :: cs)
      (hc : isWordStart c = true) (hcs : ∀ d ∈ cs, isWordChar d = true) : Valid ⟨.ofWord x, x⟩
  | number {x : String} (hx : IsDigits x.toList ∨ IsDecimal x.toList) : Valid ⟨.number, x⟩
  | string (x : String) : Valid ⟨.string, x⟩
  | mark {kind : Kind} {x : String} (h : Pattern.mark kind x ∈ Pattern.table) : Valid ⟨kind, x⟩

/-- The text may follow a lexeme: it is empty or begins with a space. -/
def Apart (rest : List Char) : Prop := rest = [] ∨ ∃ cs, rest = ' ' :: cs

theorem Apart.stops {rest : List Char} (h : Apart rest) {p : Char → Bool} (hp : p ' ' = false)
    (c : Char) (s : List Char) (hr : rest = c :: s) : p c = false := by
  obtain rfl | ⟨cs, rfl⟩ := h
  · cases hr
  · cases hr
    exact hp

namespace Pattern

/-- The pattern is the first, and picks the text. -/
structure Reads (p : Pattern) (picked rest : List Char) : Prop where
  first : first? (picked ++ rest) = some p
  longest : p.longest (picked ++ rest) = picked

theorem reads_word {c : Char} {cs rest : List Char} (hc : isWordStart c = true)
    (hcs : ∀ d ∈ cs, isWordChar d = true) (hr : Apart rest) : word.Reads (c :: cs) rest := by
  have hl : word.longest (c :: cs ++ rest) = c :: cs := by
    rw [List.cons_append, longest, if_pos hc, (span_append hcs (hr.stops (by decide))).1]
  refine ⟨?_, hl⟩
  rw [first?, table, List.find?_cons_of_pos (by rw [hl]; rfl)]

theorem longest_number_eq {cs rest : List Char} (h : IsDigits cs ∨ IsDecimal cs)
    (hr : Apart rest) : number.longest (cs ++ rest) = cs := by
  obtain h | ⟨a, b, rfl, ha, hb⟩ := h
  · obtain ⟨ht, hd⟩ := span_append h.2 (hr.stops (by decide))
    have hne : cs.isEmpty = false := by simpa using h.1
    simp only [longest, ht, hd, hne, Bool.false_eq_true, if_false]
    obtain rfl | ⟨ds, rfl⟩ := hr <;> rfl
  · have hpoint : ∀ c s, '.' :: (b ++ rest) = c :: s → c.isDigit = false := by
      intro c s h
      cases h
      rfl
    obtain ⟨hta, hda⟩ := span_append ha.2 hpoint
    obtain ⟨htb, -⟩ := span_append hb.2 (hr.stops (by decide))
    have hnea : a.isEmpty = false := by simpa using ha.1
    have hneb : b.isEmpty = false := by simpa using hb.1
    rw [List.append_assoc, List.cons_append]
    simp only [longest, hta, hda, htb, hnea, hneb, Bool.false_eq_true, if_false]

theorem reads_number {cs rest : List Char} (h : IsDigits cs ∨ IsDecimal cs) (hr : Apart rest) :
    number.Reads cs rest := by
  have hl := longest_number_eq h hr
  obtain ⟨c, ds, rfl, hc⟩ : ∃ c ds, cs = c :: ds ∧ c.isDigit = true := by
    obtain h | ⟨a, b, rfl, h, -⟩ := h
    · obtain ⟨c, ds, rfl⟩ := List.exists_cons_of_ne_nil h.1
      exact ⟨c, ds, rfl, h.2 c (by simp)⟩
    · obtain ⟨c, ds, rfl⟩ := List.exists_cons_of_ne_nil h.1
      exact ⟨c, _, rfl, h.2 c (by simp)⟩
  have hw : word.longest (c :: ds ++ rest) = [] := by
    rw [List.cons_append, longest, if_neg (by rw [isWordStart_of_isDigit hc]; decide)]
  refine ⟨?_, hl⟩
  rw [first?, table, List.find?_cons_of_neg (by rw [hw]; decide),
    List.find?_cons_of_pos (by rw [hl]; rfl)]

theorem reads_quoted (cs rest : List Char) :
    quoted.Reads ('"' :: (Escape.encode cs ++ ['"'])) rest := by
  have hl : quoted.longest ('"' :: (Escape.encode cs ++ ['"']) ++ rest) =
      '"' :: (Escape.encode cs ++ ['"']) := by
    rw [List.cons_append, List.append_assoc, List.singleton_append, longest, untilQuote?_encode]
    rfl
  refine ⟨?_, hl⟩
  -- No pattern before this one begins with a quote.
  have hw : word.longest ('"' :: (Escape.encode cs ++ ['"']) ++ rest) = [] := rfl
  have hn : number.longest ('"' :: (Escape.encode cs ++ ['"']) ++ rest) = [] := rfl
  have hb : blanks.longest ('"' :: (Escape.encode cs ++ ['"']) ++ rest) = [] := rfl
  rw [first?, table, List.find?_cons_of_neg (by rw [hw]; decide),
    List.find?_cons_of_neg (by rw [hn]; decide), List.find?_cons_of_neg (by rw [hb]; decide),
    List.find?_cons_of_pos (by rw [hl]; rfl)]

theorem reads_mark {kind : Kind} {x : String} (h : mark kind x ∈ table) {rest : List Char}
    (hr : Apart rest) : (mark kind x).Reads x.toList rest := by
  simp only [table, List.mem_cons, mark.injEq, reduceCtorEq, false_or, List.not_mem_nil,
    or_false] at h
  rcases h with h | h | h | h | h | h | h | h | h | h | h | h | h | h | h | h | h | h | h <;>
    obtain ⟨rfl, rfl⟩ := h <;> obtain rfl | ⟨cs, rfl⟩ := hr <;> exact ⟨rfl, rfl⟩

end Pattern

namespace Lexeme

theorem text_of_ne {x : Lexeme} (h : x.kind ≠ .string) : x.text = x.value.toList := by
  rw [text, if_neg h]

/-- **A valid lexeme is read back**, if a space or the end comes after it. -/
theorem Valid.reads {x : Lexeme} (h : x.Valid) {rest : List Char} (hr : Apart rest) :
    ∃ p : Pattern, p.Reads x.text rest ∧ p.token? x.text = some (x.kind, x.value) := by
  cases h with
  | @word x c cs hx hc hcs =>
    have ht : text ⟨.ofWord x, x⟩ = c :: cs := by rw [text_of_ne (ofWord_ne x).2, hx]
    refine ⟨.word, ?_, ?_⟩
    · rw [ht]
      exact Pattern.reads_word hc hcs hr
    · rw [ht, ← hx, Pattern.token?, String.ofList_toList]
  | @number x hx =>
    have ht : text ⟨.number, x⟩ = x.toList := text_of_ne (by simp)
    refine ⟨.number, ?_, ?_⟩
    · rw [ht]
      exact Pattern.reads_number hx hr
    · rw [ht, Pattern.token?, String.ofList_toList]
  | string x =>
    refine ⟨.quoted, Pattern.reads_quoted x.toList rest, ?_⟩
    simp [text, Pattern.token?, Escape.decode_encode]
  | @mark kind x h =>
    have ht : text ⟨kind, x⟩ = x.toList := text_of_ne (Pattern.kind_of_mark_mem_table h).2.2
    refine ⟨.mark kind x, ?_, rfl⟩
    rw [ht]
    exact Pattern.reads_mark h hr

/-- A lexeme begins with a character that is no blank. -/
theorem Valid.text_eq_cons {x : Lexeme} (h : x.Valid) :
    ∃ c cs, x.text = c :: cs ∧ Text.isBlank c = false := by
  have digit {cs : List Char} (h : IsDigits cs) :
      ∃ c ds, cs = c :: ds ∧ Text.isBlank c = false := by
    obtain ⟨c, ds, rfl⟩ := List.exists_cons_of_ne_nil h.1
    have := toNat_of_isDigit (h.2 c (by simp))
    exact ⟨c, ds, rfl, isBlank_of_toNat (by omega) (by omega)⟩
  cases h with
  | @word x c cs hx hc _ =>
    have := toNat_of_isWordStart hc
    exact ⟨c, cs, by rw [text_of_ne (ofWord_ne x).2, hx], isBlank_of_toNat (by omega) (by omega)⟩
  | @number x hx =>
    rw [text_of_ne (by simp)]
    obtain hx | ⟨a, b, hx, ha, -⟩ := hx
    · exact digit hx
    · obtain ⟨c, ds, rfl, hc⟩ := digit ha
      exact ⟨c, _, hx, hc⟩
  | string x => exact ⟨'"', _, rfl, rfl⟩
  | @mark kind x h =>
    rw [text_of_ne (Pattern.kind_of_mark_mem_table h).2.2]
    have hx := Pattern.check_of_mark_mem_table
      (fun _ s => s.toList.head?.any fun c => !Text.isBlank c) (by decide) h
    cases hs : x.toList with
    | nil => simp [hs] at hx
    | cons c cs => exact ⟨c, cs, rfl, by simpa [hs] using hx⟩

end Lexeme

/-! ## Scanning -/

namespace Reader

theorem scan_of_first? {r : Reader} {p : Pattern} {ts : List Token} (hr : r.rest ≠ [])
    (hp : Pattern.first? r.rest = some p) (h : (r.past p).scan = .ok ts) :
    r.scan = .ok (r.emit p ++ ts) := by
  rw [scan_eq, if_neg hr, hp]
  dsimp only
  rw [h]
  rfl

theorem rest_past {r : Reader} {p : Pattern} (picked rest : List Char)
    (hr : r.rest = picked ++ rest) (hp : p.longest r.rest = picked) : (r.past p).rest = rest := by
  have h := longest_append_rest_past r p
  rw [hp, hr] at h
  exact List.append_cancel_left h

/-- A lexeme is read, and scanning goes on after it. -/
theorem scan_lexeme {r : Reader} {x : Lexeme} {rest : List Char} (hx : x.Valid)
    (hrest : Apart rest) (hr : r.rest = x.text ++ rest) :
    ∃ (t : Token) (r' : Reader), t.lexeme = x ∧ r'.rest = rest ∧
      ∀ ts, r'.scan = .ok ts → r.scan = .ok (t :: ts) := by
  obtain ⟨p, ⟨hfirst, hlongest⟩, ht⟩ := hx.reads hrest
  rw [← hr] at hfirst hlongest
  have hemit : r.emit p = [⟨x.kind, x.value, r.span (Text.width x.text)⟩] := by
    simp only [emit, hlongest, ht]
  have hne : r.rest ≠ [] := by
    obtain ⟨c, cs, hc, -⟩ := hx.text_eq_cons
    rw [hr, hc]
    simp
  refine ⟨⟨x.kind, x.value, r.span (Text.width x.text)⟩, r.past p, rfl,
    rest_past _ _ hr hlongest, fun ts hts => ?_⟩
  rw [scan_of_first? hne hfirst hts, hemit]
  rfl

/-- A space is passed over. -/
theorem scan_space {r : Reader} {c : Char} {cs : List Char} (hr : r.rest = ' ' :: c :: cs)
    (hc : Text.isBlank c = false) :
    ∃ r' : Reader, r'.rest = c :: cs ∧ ∀ ts, r'.scan = .ok ts → r.scan = .ok ts := by
  have hl : Pattern.blanks.longest r.rest = [' '] := by
    rw [hr, Pattern.longest, List.takeWhile_cons_of_pos rfl,
      List.takeWhile_cons_of_neg (by rw [hc]; decide)]
  refine ⟨r.past .blanks, rest_past [' '] (c :: cs) hr hl, fun ts hts => ?_⟩
  have hfirst : Pattern.first? r.rest = some .blanks := by rw [hr]; rfl
  exact scan_of_first? (by rw [hr]; simp) hfirst hts

/-- **Spelled lexemes are read back,** with an end after them. -/
theorem scan_spaced {xs : List Lexeme} (hxs : ∀ x ∈ xs, x.Valid) {r : Reader}
    (hr : r.rest = spaced xs) :
    ∃ (ts : List Token) (t : Token), r.scan = .ok (ts ++ [t]) ∧ ts.map Token.lexeme = xs ∧
      t.kind = .eof := by
  induction xs using spaced.induct generalizing r with
  | case1 =>
    refine ⟨[], ⟨.eof, "EOF", r.span 0⟩, ?_, rfl, rfl⟩
    rw [scan_eq, if_pos (by rw [hr, spaced])]
    rfl
  | case2 x =>
    have hr' : r.rest = x.text ++ [] := by rw [hr, spaced, List.append_nil]
    obtain ⟨t, r', ht, hrest, hs⟩ := scan_lexeme (hxs x (by simp)) (.inl rfl) hr'
    have hend : r'.scan = .ok [⟨.eof, "EOF", r'.span 0⟩] := by rw [scan_eq, if_pos hrest]
    exact ⟨[t], _, hs _ hend, by rw [List.map_singleton, ht], rfl⟩
  | case3 x y xs ih =>
    obtain ⟨t, r₁, ht, hr₁, hs₁⟩ :=
      scan_lexeme (hxs x (by simp)) (.inr ⟨spaced (y :: xs), rfl⟩) (hr.trans (by rw [spaced]))
    obtain ⟨c, cs, hc, hb⟩ : ∃ c cs, spaced (y :: xs) = c :: cs ∧ Text.isBlank c = false := by
      obtain ⟨c, cs, hc, hb⟩ := (hxs y (by simp)).text_eq_cons
      cases xs with
      | nil => exact ⟨c, cs, by rw [spaced, hc], hb⟩
      | cons z zs => exact ⟨c, _, by rw [spaced, hc, List.cons_append], hb⟩
    rw [hc] at hr₁
    obtain ⟨r₂, hr₂, hs₂⟩ := scan_space hr₁ hb
    obtain ⟨ts, e, hts, hmap, he⟩ :=
      ih (fun z hz => hxs z (List.mem_cons_of_mem x hz)) (hr₂.trans hc.symm)
    exact ⟨t :: ts, e, hs₁ _ (hs₂ _ hts), by rw [List.map_cons, ht, hmap], he⟩

end Reader

end ExprScript
