import ExprScript.Proofs.Tiling

/-!
# The character that stops the scanner

Where no pattern matches, the character at hand starts no token. Which characters these are can be
said without the table of patterns: a quote that is never closed, one half of a mark that comes in
pairs, or a character with no part in the language. What stands before it has been read already, and
would be read in the same way if the source ended there, since a piece that is longest among all
that is to come is longest among a part of it.

* `Barred`: the texts whose first character starts no token.
* **`stuck_iff_barred`**: those are the texts that no pattern matches.
* `Segmented.cut`: a text that ends where its pieces end is cut into the same pieces.
* **`tokenize_obstacle`**: where and why reading fails, and what was read before.
-/

namespace ExprScript

/-! ## Characters that start no token -/

/-- The marks of one character, among them those that begin a longer mark or a comment. -/
def soloMarks : List Char :=
  ['\x7b', '\x7d', '(', ')', '=', '!', '<', '>', ';', '+', '-', '/', '*']

/-- The first character of the text starts no token. -/
inductive Barred : List Char → Prop
  /-- A quote without one that closes it. -/
  | quote {cs : List Char} (h : ∀ body, QuotedBody body → ¬ '"' :: (body ++ ['"']) <+: '"' :: cs) :
      Barred ('"' :: cs)
  | ampersand {cs : List Char} (h : cs.head? ≠ some '&') : Barred ('&' :: cs)
  | bar {cs : List Char} (h : cs.head? ≠ some '|') : Barred ('|' :: cs)
  /-- A character with no part in the language, except within strings and comments. -/
  | foreign {c : Char} {cs : List Char} (hword : c.isAlphanum = false)
      (hblank : Text.isBlank c = false) (hopen : c ∉ ['_', '"', '&', '|']) (hsolo : c ∉ soloMarks) :
      Barred (c :: cs)

namespace Pattern

/-- The kinds of the marks of one character. -/
def soloKinds : List Kind :=
  [.openCurly, .closeCurly, .openParen, .closeParen, .assignment, .not, .less, .greater, .semicolon,
    .plus, .dash, .slash, .star]

theorem exists_mark_of_solo {c : Char} (h : c ∈ soloMarks) :
    ∃ kind, mark kind (String.singleton c) ∈ table := by
  have hall : ∀ d ∈ soloMarks,
      soloKinds.any (fun k => mark k (String.singleton d) ∈ table) = true :=
    List.all_eq_true.1 (by decide)
  obtain ⟨kind, -, hmem⟩ := List.any_eq_true.1 (hall c h)
  exact ⟨kind, by simpa using hmem⟩

theorem spelling_cases {kind : Kind} {s : String} (h : mark kind s ∈ table) :
    (∃ c cs, s.toList = c :: cs ∧ c ∈ soloMarks) ∨ s.toList = ['&', '&'] ∨
      s.toList = ['|', '|'] := by
  have hs := check_of_mark_mem_table (fun _ s => s.toList.head?.any (· ∈ soloMarks) ||
    s.toList = ['&', '&'] || s.toList = ['|', '|']) (by decide) h
  simp only [Bool.or_eq_true, decide_eq_true_eq, or_assoc] at hs
  refine hs.imp_left fun hsolo => ?_
  cases hc : s.toList with
  | nil => simp [hc] at hsolo
  | cons c cs => exact ⟨c, cs, rfl, by simpa [hc] using hsolo⟩

end Pattern

/-! ## Texts that no pattern matches -/

theorem Stuck.barred {c : Char} {cs : List Char} (h : Stuck (c :: cs)) : Barred (c :: cs) := by
  have not_accepts (p : Pattern) (hp : p ∈ Pattern.table) {w : List Char} (hw : w <+: c :: cs) :
      ¬ p.Accepts w := fun ha => h.2 p hp ⟨w, ha, hw⟩
  have hone : [c] <+: c :: cs := by simp
  have hstart : isWordStart c = false := by
    rw [Bool.eq_false_iff]
    exact fun hc => not_accepts .word (by decide) hone (.word hc (by simp))
  have hdigit : c.isDigit = false := by
    rw [Bool.eq_false_iff]
    exact fun hc => not_accepts .number (by decide) hone (.whole ⟨by simp, by simpa using hc⟩)
  have hblank : Text.isBlank c = false := by
    rw [Bool.eq_false_iff]
    exact fun hc => not_accepts .blanks (by decide) hone (.blanks (by simp) (by simpa using hc))
  have hsolo : c ∉ soloMarks := by
    intro hc
    obtain ⟨kind, hmem⟩ := Pattern.exists_mark_of_solo hc
    exact not_accepts _ hmem (by simp) (.mark kind _)
  have hpair (kind : Kind) (s : String) (hmem : Pattern.mark kind s ∈ Pattern.table)
      (hs : s.toList = [c, c]) : cs.head? ≠ some c := by
    intro hhead
    obtain ⟨ds, rfl⟩ := List.head?_eq_some_iff.1 hhead
    exact not_accepts _ hmem (by simp [hs]) (.mark kind s)
  by_cases hquote : c = '"'
  · subst hquote
    exact .quote fun body hbody hpre => not_accepts .quoted (by decide) hpre (.quoted hbody)
  by_cases hamp : c = '&'
  · subst hamp
    exact .ampersand (hpair .and "&&" (by decide) rfl)
  by_cases hbar : c = '|'
  · subst hbar
    exact .bar (hpair .or "||" (by decide) rfl)
  simp only [isWordStart, Bool.or_eq_false_iff, decide_eq_false_iff_not] at hstart
  exact .foreign (by simp [Char.isAlphanum, hstart.1, hdigit]) hblank
    (by simp [hstart.2, hquote, hamp, hbar]) hsolo

namespace Barred

variable {c : Char} {cs : List Char}

theorem classes (h : Barred (c :: cs)) :
    isWordStart c = false ∧ c.isDigit = false ∧ Text.isBlank c = false := by
  cases h with
  | quote | ampersand | bar => decide
  | foreign hword hblank hopen =>
    simp only [Char.isAlphanum, Bool.or_eq_false_iff] at hword
    have hunderscore : c ≠ '_' := by
      rintro rfl
      simp at hopen
    exact ⟨by simp [isWordStart, hword.1, hunderscore], hword.2, hblank⟩

theorem not_solo (h : Barred (c :: cs)) : c ∉ soloMarks := by
  cases h with
  | quote | ampersand | bar => decide
  | foreign _ _ _ hsolo => exact hsolo

theorem not_accepts (h : Barred (c :: cs)) {p : Pattern} (hp : p ∈ Pattern.table) {w : List Char}
    (hw : w <+: cs) : ¬ p.Accepts (c :: w) := by
  obtain ⟨hstart, hdigit, hblank⟩ := h.classes
  intro ha
  generalize hv : c :: w = v at ha
  cases ha with
  | word hc =>
    cases hv
    rw [hstart] at hc
    cases hc
  | whole hds =>
    have hc := hds.2 c (by simp [← hv])
    rw [hdigit] at hc
    cases hc
  | @decimal as bs has =>
    obtain ⟨d, ds, rfl⟩ := List.exists_cons_of_ne_nil has.1
    cases hv
    have hc := has.2 c (by simp)
    rw [hdigit] at hc
    cases hc
  | blanks _ hbs =>
    have hc := hbs c (by simp [← hv])
    rw [hblank] at hc
    cases hc
  | quoted hbody =>
    cases hv
    cases h with
    | quote hnone => exact hnone _ hbody (by simpa using hw)
    | foreign _ _ hopen => simp at hopen
  | comment =>
    cases hv
    exact h.not_solo (by decide)
  | mark kind s =>
    rcases Pattern.spelling_cases hp with ⟨d, ds, hs, hsolo⟩ | hs | hs <;> rw [hs] at hv <;>
      cases hv
    · exact h.not_solo hsolo
    · obtain ⟨ds, rfl⟩ := hw
      cases h with
      | ampersand hhead => exact hhead rfl
      | foreign _ _ hopen => simp at hopen
    · obtain ⟨ds, rfl⟩ := hw
      cases h with
      | bar hhead => exact hhead rfl
      | foreign _ _ hopen => simp at hopen

end Barred

/-- **The texts that no pattern matches,** said by their first character. -/
theorem stuck_iff_barred {cs : List Char} : Stuck cs ↔ Barred cs := by
  cases cs with
  | nil => exact ⟨fun h => absurd rfl h.1, nofun⟩
  | cons c cs =>
    refine ⟨Stuck.barred, fun h => ⟨by simp, ?_⟩⟩
    rintro p hp ⟨w, ha, hw⟩
    obtain ⟨d, ds, rfl⟩ := List.exists_cons_of_ne_nil (ha.ne_nil hp)
    obtain ⟨rfl, hds⟩ := List.cons_prefix_cons.1 hw
    exact h.not_accepts hp hds ha

/-! ## The part before -/

theorem Munch.cut {p : Pattern} {w q rest : List Char} (h : Munch (w ++ (q ++ rest)) p w) :
    Munch (w ++ q) p w where
  mem := h.mem
  accepts := h.accepts
  begins := List.prefix_append w q
  longest := by
    intro r hr v hv hvw
    refine h.longest r hr v hv (hvw.trans ?_)
    rw [← List.append_assoc]
    exact List.prefix_append _ rest

/-- **A text that ends where its pieces end is cut into the same pieces.** -/
theorem Segmented.cut {file : String} {n n' : Nat} {cs cs' : List Char} {ts : List Token}
    (h : Segmented file n cs ts n' cs') :
    ∃ q, cs = q ++ cs' ∧ Segmented file n q ts n' [] := by
  induction h with
  | nil n cs => exact ⟨[], rfl, .nil n []⟩
  | @token n n' p w rest cs' x ts hm hx _ ih =>
    obtain ⟨q, rfl, hq⟩ := ih
    exact ⟨w ++ q, (List.append_assoc w q cs').symm, .token hm.cut hx hq⟩
  | @skip n n' p w rest cs' ts hm hp _ ih =>
    obtain ⟨q, rfl, hq⟩ := ih
    exact ⟨w ++ q, (List.append_assoc w q cs').symm, .skip hm.cut hp hq⟩

/-! ## Where reading fails -/

/-- What is known of a fault that keeps a source from being cut into tokens. -/
structure Fault.OfScanning (source : String) (file : Option String) (f : Fault) (p : Nat)
    (c : Char) : Prop where
  /-- The fault names the character and its place. -/
  named : ∃ position, f = .located (.unrecognised (String.singleton c)) position ∧
    position.offset.toNat = p ∧ position.file = file.getD unnamedSource
  inside : p < source.utf8ByteSize
  boundary : IsBoundary source p
  /-- The character is the one at the place. -/
  character : slice source p (p + c.utf8Size) = String.singleton c
  /-- The text from there on starts no token. -/
  barred : Barred (slice source p source.utf8ByteSize).toList
  /-- The text before is cut into tokens, and they are those read before the fault. -/
  before : ∃ us, Segmented (file.getD unnamedSource) 0 source.toList us p
      (slice source p source.utf8ByteSize).toList ∧
    tokenize (slice source 0 p) file = .ok (us ++ [.eof (.ofNat p) (file.getD unnamedSource)])

/-- **The character that stops the scanner** starts no token, and what stands before it is read
alone as it was read there. -/
theorem tokenize_obstacle {source : String} {file : Option String} {f : Fault}
    (hsize : source.utf8ByteSize < UInt32.size) (h : tokenize source file = .error f) :
    ∃ p c, f.OfScanning source file p c := by
  obtain ⟨us, p, c, cs, hs, hstuck, rfl⟩ := tokenize_eq_error_iff.1 h
  have hr := (hs.remains (remains_zero source)).2
  have hend := hr.add_width_eq
  have hrest : slice source p source.utf8ByteSize = .ofList (c :: cs) := by
    rw [← List.append_nil (c :: cs)] at hr
    rw [← hend, hr.slice_eq]
  have hlt : p < source.utf8ByteSize := by
    have := c.utf8Size_pos
    rw [Text.width_cons] at hend
    omega
  obtain ⟨q, hq, hbefore⟩ := hs.cut
  have hslice : slice source 0 p = .ofList q := by
    obtain ⟨before, hsource, rfl⟩ := hr
    obtain rfl := List.append_cancel_right (hsource.symm.trans hq)
    have := Remains.slice_eq (hsource ▸ remains_zero source)
    rwa [Nat.zero_add] at this
  refine ⟨p, c, ⟨_, rfl, UInt32.toNat_ofNat_of_lt (by omega), rfl⟩, hlt, hr.isBoundary, ?_, ?_, us,
    ?_, ?_⟩
  · exact Remains.slice_eq (w := [c]) hr
  · rw [hrest, String.toList_ofList]
    exact stuck_iff_barred.1 hstuck
  · rwa [hrest, String.toList_ofList]
  · rw [hslice]
    exact Segmented.tokenize_eq_ok (by rwa [String.toList_ofList])

theorem tokenize_obstacle_open_quote :
    let source := "\"à\" // \"\n&& \"b\\\""
    let f := Fault.located (.unrecognised "\"") ⟨13, "shell"⟩
    source.utf8ByteSize < UInt32.size ∧ tokenize source none = .error f ∧
      f.OfScanning source none 13 '"' := by
  intro source f
  have hsize : source.utf8ByteSize < UInt32.size := by decide
  have h : tokenize source none = .error f := by decide +kernel
  obtain ⟨p, c, hf⟩ := tokenize_obstacle hsize h
  obtain ⟨position, heq, hp, -⟩ := hf.named
  simp only [f, Fault.located, Fault.mk.injEq, Cause.unrecognised.injEq, Option.some.injEq] at heq
  obtain ⟨hc, rfl⟩ := heq
  obtain rfl : 13 = p := hp
  have hc' : ['"'] = [c] := (congrArg String.toList hc).trans (String.toList_singleton c)
  cases hc'
  exact ⟨hsize, h, hf⟩

end ExprScript
