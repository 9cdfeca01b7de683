import ExprScript.Proofs.Tiling

/-!
# Every spelling of a string

A string literal spells its characters one by one, each in one of up to three ways: as itself, as a
short escape, or by its code point in two hexadecimal digits. Where a literal ends is found before
its escapes are resolved, and the two look at its backslashes separately. They agree on every
spelling, so a literal always denotes the characters that were spelled.

* `Escape.Spells`: the spellings of a character.
* `Escape.Spells.decode_append`: a spelling is resolved to its character.
* `Escape.Spells.quotedBody_append`: no quote in it ends the literal.
* **`tokenize_spelled`**: a string, however it is spelled, is read as one token.
-/

namespace ExprScript

namespace Escape

/-! ## Spellings -/

/-- The characters with a short escape, and what stands after the backslash. -/
def shortEscapes : List (Char × Char) :=
  [('\n', 'n'), ('\t', 't'), ('\r', 'r'), ('\\', '\\'), ('"', '"'), ('\x00', '0')]

/-- The hexadecimal digit with the value `n`, in either case. -/
def IsHexDigit (c : Char) (n : Nat) : Prop :=
  "0123456789abcdef".toList[n]? = some c ∨ "0123456789ABCDEF".toList[n]? = some c

/-- The ways to spell a character between quotes. -/
inductive Spells : Char → List Char → Prop
  | self {c : Char} (hq : c ≠ '"') (hb : c ≠ '\\') : Spells c [c]
  | short {c d : Char} (h : (c, d) ∈ shortEscapes) : Spells c ['\\', d]
  /-- Two digits suffice for the code points up to 255. -/
  | code {c a b : Char} {m n : Nat} (ha : IsHexDigit a m) (hb : IsHexDigit b n)
      (hc : c.toNat = 16 * m + n) : Spells c ['\\', 'x', a, b]

theorem exists_spells (cs : List Char) : ∃ parts, List.Forall₂ Spells cs parts := by
  induction cs with
  | nil => exact ⟨[], .nil⟩
  | cons c cs ih =>
    obtain ⟨parts, hparts⟩ := ih
    by_cases hq : c = '"'
    · exact ⟨['\\', '"'] :: parts, .cons (.short (by simp [hq, shortEscapes])) hparts⟩
    · by_cases hb : c = '\\'
      · exact ⟨['\\', '\\'] :: parts, .cons (.short (by simp [hb, shortEscapes])) hparts⟩
      · exact ⟨[c] :: parts, .cons (.self hq hb) hparts⟩

/-! ## Digits -/

theorem IsHexDigit.hexDigit?_eq {c : Char} {n : Nat} (h : IsHexDigit c n) :
    hexDigit? c = some n := by
  have lower : ∀ i : Fin 16, hexDigit? ("0123456789abcdef".toList.get i) = some i.val := by decide
  have upper : ∀ i : Fin 16, hexDigit? ("0123456789ABCDEF".toList.get i) = some i.val := by decide
  rcases h with h | h
  · obtain ⟨hn, rfl⟩ := List.getElem?_eq_some_iff.1 h
    exact lower ⟨n, hn⟩
  · obtain ⟨hn, rfl⟩ := List.getElem?_eq_some_iff.1 h
    exact upper ⟨n, hn⟩

theorem IsHexDigit.ne {c : Char} {n : Nat} (h : IsHexDigit c n) : c ≠ '"' ∧ c ≠ '\\' := by
  have hc := h.hexDigit?_eq
  constructor <;> rintro rfl <;> cases hc

/-! ## Spellings resolved -/

theorem short?_of_mem {c d : Char} (h : (c, d) ∈ shortEscapes) : short? d = some c := by
  have hall : ∀ p ∈ shortEscapes, short? p.2 = some p.1 := by decide
  exact hall _ h

theorem decode_short {c d : Char} (h : short? d = some c) (cs : List Char) :
    decode ('\\' :: d :: cs) = c :: decode cs := by
  have hx : d ≠ 'x' := by
    rintro rfl
    cases h
  rw [decode, h]
  · exact fun _ _ _ hd _ => hx hd
  · exact fun _ hd _ => hx hd

namespace Spells

variable {c : Char} {t : List Char}

/-- **A spelling is resolved to its character.** -/
theorem decode_append (h : Spells c t) (cs : List Char) : decode (t ++ cs) = c :: decode cs := by
  cases h with
  | self hq hb => exact decode_cons hb cs
  | short h => exact decode_short (short?_of_mem h) cs
  | code ha hb hc =>
    simp only [List.cons_append, List.nil_append, decode, ha.hexDigit?_eq, hb.hexDigit?_eq]
    rw [← hc, Char.ofNat_toNat]

/-- **A spelling does not end the literal.** -/
theorem quotedBody_append (h : Spells c t) {cs : List Char} (hcs : QuotedBody cs) :
    QuotedBody (t ++ cs) := by
  cases h with
  | self hq hb => exact .plain hq hb hcs
  | short h =>
    rename_i d
    have hd : d ≠ '\n' := by
      rintro rfl
      cases short?_of_mem h
    exact .pair hd hcs
  | code ha hb _ =>
    exact .pair (by decide) (.plain ha.ne.1 ha.ne.2 (.plain hb.ne.1 hb.ne.2 hcs))

end Spells

theorem decode_flatten {cs : List Char} {parts : List (List Char)}
    (h : List.Forall₂ Spells cs parts) : decode parts.flatten = cs := by
  induction h with
  | nil => rfl
  | cons hc _ ih => rw [List.flatten_cons, hc.decode_append, ih]

theorem quotedBody_flatten {cs : List Char} {parts : List (List Char)}
    (h : List.Forall₂ Spells cs parts) : QuotedBody parts.flatten := by
  induction h with
  | nil => exact .nil
  | cons hc _ ih => exact hc.quotedBody_append ih

end Escape

/-! ## Literals as sources -/

theorem Pattern.Accepts.munch {p : Pattern} {w : List Char} (h : p.Accepts w) (hp : p ∈ table) :
    Munch w p w :=
  ⟨hp, h, List.prefix_rfl, fun _ _ _ _ hv => hv.length_le⟩

/-- **A string, however it is spelled, is read as one token** that spans all of the source. -/
theorem tokenize_spelled (s : String) (file : Option String) :
    (∃ parts, List.Forall₂ Escape.Spells s.toList parts) ∧
      ∀ parts, List.Forall₂ Escape.Spells s.toList parts →
        let source := String.ofList ('"' :: (parts.flatten ++ ['"']))
        let name := file.getD unnamedSource
        let t : Token := ⟨.string, s, .ofNat 0 source.utf8ByteSize name⟩
        tokenize source file = .ok [t, .eof (.ofNat source.utf8ByteSize) name] ∧
          (source.utf8ByteSize < UInt32.size → t.start = 0 ∧ t.stop = source.utf8ByteSize) := by
  refine ⟨Escape.exists_spells s.toList, fun parts h => ?_⟩
  intro source name t
  refine ⟨?_, fun hsize => ?_⟩
  · have haccepts : Pattern.quoted.Accepts ('"' :: (parts.flatten ++ ['"'])) :=
      .quoted (Escape.quotedBody_flatten h)
    have hm : Munch ('"' :: (parts.flatten ++ ['"']) ++ []) .quoted
        ('"' :: (parts.flatten ++ ['"'])) := by
      rw [List.append_nil]
      exact haccepts.munch (by decide)
    have htokens := hm.tokenize_eq (.quoted parts.flatten) file
    rw [Escape.decode_flatten h, String.ofList_toList, ← Text.width_ofList,
      Lexeme.token, Nat.zero_add] at htokens
    exact htokens
  · exact ⟨rfl, UInt32.toNat_ofNat_of_lt hsize⟩

theorem tokenize_spelled_backslashes :
    let s := "\\\\\"\né"
    let parts := [['\\', '\\'], ['\\', 'x', '5', 'C'], ['\\', 'x', '2', '2'], ['\n'],
      ['\\', 'x', 'E', '9']]
    List.Forall₂ Escape.Spells s.toList parts ∧
      tokenize "\"\\\\\\x5C\\x22\n\\xE9\"" none = .ok [⟨.string, s, .ofNat 0 17 "shell"⟩,
        .eof 17 "shell"] := by
  intro s parts
  have h : List.Forall₂ Escape.Spells s.toList parts := by
    have digit (c : Char) (n : Nat) (hc : "0123456789ABCDEF".toList[n]? = some c) :
        Escape.IsHexDigit c n := .inr hc
    have hs : s.toList = ['\\', '\\', '"', '\n', 'é'] := by decide
    rw [hs]
    refine .cons (.short (by decide)) (.cons (.code (digit '5' 5 rfl) (digit 'C' 12 rfl) rfl) ?_)
    refine .cons (.code (digit '2' 2 rfl) (digit '2' 2 rfl) rfl) ?_
    refine .cons (.self (by decide) (by decide)) ?_
    exact .cons (.code (digit 'E' 14 rfl) (digit '9' 9 rfl) rfl) .nil
  exact ⟨h, ((tokenize_spelled s none).2 parts h).1⟩

end ExprScript
