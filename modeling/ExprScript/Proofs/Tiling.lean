import ExprScript.Proofs.Munch
import Mathlib.Data.String.Basic

/-!
# Spans tile the source

Each token covers the bytes of the piece it was read from. So the spans of a source follow one
another, the text between two of them is made of blanks and comments, and the bytes of a span say
what the token is.

* `Remains`: the text that is left of a source after some bytes; `Remains.slice_eq`.
* `Trivia`: blanks and comments.
* `Segmented.exists_piece`: the piece that a token was read from.
* `Segmented.pairwise`, `Segmented.trivia_head`, `Segmented.trivia`: the order of the spans, and
  what stands between them.
* **`tokenize_tiling`**: the tokens of a source tile it.
-/

namespace ExprScript

/-! ## Slices of a source -/

theorem Text.utf8Len_eq_width (cs : List Char) : String.utf8Len cs = Text.width cs := by
  induction cs with
  | nil => rfl
  | cons c cs ih => rw [String.utf8Len_cons, Text.width_cons, ih, Nat.add_comm]

/-- The text of the bytes from `m` up to, and not including, `n`. -/
def slice (source : String) (m n : Nat) : String := String.Pos.Raw.extract source ⟨m⟩ ⟨n⟩

/-- The offset is that of a character of the source, or of its end. -/
def IsBoundary (source : String) (n : Nat) : Prop := String.Pos.Raw.IsValid source ⟨n⟩

/-- What is left of the source after `n` bytes. -/
def Remains (source : String) (n : Nat) (cs : List Char) : Prop :=
  ∃ before, source.toList = before ++ cs ∧ Text.width before = n

theorem remains_zero (source : String) : Remains source 0 source.toList := ⟨[], rfl, rfl⟩

namespace Remains

variable {source : String} {n : Nat} {w cs : List Char}

theorem append (h : Remains source n (w ++ cs)) : Remains source (n + Text.width w) cs := by
  obtain ⟨before, hsource, rfl⟩ := h
  exact ⟨before ++ w, by rw [hsource, List.append_assoc], Text.width_append before w⟩

theorem add_width_eq (h : Remains source n cs) : n + Text.width cs = source.utf8ByteSize := by
  obtain ⟨before, hsource, rfl⟩ := h
  rw [← Text.width_toList, hsource, Text.width_append]

theorem isBoundary (h : Remains source n cs) : IsBoundary source n := by
  obtain ⟨before, hsource, rfl⟩ := h
  refine String.Pos.Raw.isValid_iff_exists_append.2 ⟨.ofList before, .ofList cs, ?_, ?_⟩
  · rw [← String.ofList_append, ← hsource, String.ofList_toList]
  · rw [String.Pos.Raw.ext_iff, String.byteIdx_rawEndPos, Text.width_ofList]

theorem slice_eq (h : Remains source n (w ++ cs)) :
    slice source n (n + Text.width w) = .ofList w := by
  obtain ⟨before, hsource, rfl⟩ := h
  have := String.extract_of_valid before w cs
  rwa [List.append_assoc, ← hsource, String.ofList_toList, Text.utf8Len_eq_width,
    Text.utf8Len_eq_width] at this

end Remains

/-! ## Offsets of a token -/

namespace Token

/-- The offset of the first byte of the token. -/
def start (t : Token) : Nat := t.span.start.offset.toNat

/-- The offset after the last byte of the token. -/
def stop (t : Token) : Nat := t.span.stop.offset.toNat

theorem offsets_eof {n : Nat} (h : n < UInt32.size) (file : String) :
    (eof (.ofNat n) file).start = n ∧ (eof (.ofNat n) file).stop = n :=
  ⟨UInt32.toNat_ofNat_of_lt h, UInt32.toNat_ofNat_of_lt h⟩

end Token

/-! ## Kinds of lexemes -/

namespace Pattern

theorem Stands.initial_ne {p : Pattern} {w : List Char} {x : Lexeme} (h : p.Stands w x) :
    p.initial ≠ .blank := by
  cases h <;> simp [initial]

theorem Stands.kind_ne_eof {p : Pattern} {w : List Char} {x : Lexeme} (h : p.Stands w x)
    (hp : p ∈ table) : x.kind ≠ .eof := by
  cases h with
  | reserved h =>
    rw [(mem_reservedKinds.1 h).2]
    unfold Kind.ofWord
    split <;> simp
  | name | number | quoted => simp
  | mark kind spelling =>
    have := check_of_mark_mem_table (fun k _ => k ≠ .eof) (by decide) hp
    simpa using this

/-- Only a string literal does not spell its value. -/
theorem Stands.value_eq {p : Pattern} {w : List Char} {x : Lexeme} (h : p.Stands w x)
    (hx : x.kind ≠ .string) : String.ofList w = x.value := by
  cases h with
  | quoted => exact absurd rfl hx
  | reserved | name | number | mark => exact String.ofList_toList

theorem Stands.exists_body {p : Pattern} {w : List Char} {x : Lexeme} (h : p.Stands w x)
    (hp : p ∈ table) (ha : p.Accepts w) (hx : x.kind = .string) :
    ∃ body, QuotedBody body ∧ w = '"' :: (body ++ ['"']) ∧
      x.value = .ofList (Escape.decode body) := by
  cases h with
  | reserved h =>
    rw [(mem_reservedKinds.1 h).2] at hx
    exact absurd hx (ofWord_ne _).2
  | name | number => cases hx
  | quoted body =>
    generalize hw : '"' :: (body ++ ['"']) = w at ha
    cases ha with
    | quoted hbody =>
      obtain rfl := List.append_cancel_right (List.cons.inj hw).2
      exact ⟨body, hbody, rfl, rfl⟩
  | mark kind spelling => exact absurd hx (kind_of_mark_mem_table hp).2.2

end Pattern

/-! ## The piece of a token -/

/-- The token was read from the piece `w` of the source, at offset `n`. -/
inductive Piece (source file : String) : Nat → List Char → Token → Prop
  | mk {n : Nat} {p : Pattern} {w rest : List Char} {x : Lexeme}
      (hr : Remains source n (w ++ rest)) (hm : Munch (w ++ rest) p w) (hx : p.Stands w x) :
      Piece source file n w (x.token file n (Text.width w))

/-- The same piece is taken where nothing comes after it. -/
theorem Munch.alone {p : Pattern} {w rest : List Char} (h : Munch (w ++ rest) p w) :
    Munch w p w where
  mem := h.mem
  accepts := h.accepts
  begins := List.prefix_rfl
  longest := fun q hq v hv hvw => h.longest q hq v hv (hvw.trans (List.prefix_append w rest))

theorem Munch.tokenize_eq {p : Pattern} {w rest : List Char} {x : Lexeme}
    (h : Munch (w ++ rest) p w) (hx : p.Stands w x) (file : Option String) :
    tokenize (.ofList w) file = .ok [x.token (file.getD unnamedSource) 0 (Text.width w),
      Token.eof (.ofNat (Text.width w)) (file.getD unnamedSource)] := by
  have hm : Munch (w ++ []) p w := by rw [List.append_nil]; exact h.alone
  have hs : Segmented (file.getD unnamedSource) 0 (w ++ [])
      [x.token (file.getD unnamedSource) 0 (Text.width w)] (0 + Text.width w) [] :=
    .token hm hx (.nil _ [])
  rw [List.append_nil, ← String.toList_ofList (l := w), Nat.zero_add] at hs
  simpa using hs.tokenize_eq_ok

namespace Piece

variable {source file : String} {n : Nat} {w : List Char} {t : Token}

theorem add_width_le (h : Piece source file n w t) : n + Text.width w ≤ source.utf8ByteSize := by
  obtain ⟨hr, -, -⟩ := h
  rw [← hr.add_width_eq, Text.width_append]
  omega

theorem start_eq (h : Piece source file n w t) (hsize : source.utf8ByteSize < UInt32.size) :
    t.start = n := by
  have := h.add_width_le
  cases h
  exact UInt32.toNat_ofNat_of_lt (by omega)

theorem stop_eq (h : Piece source file n w t) (hsize : source.utf8ByteSize < UInt32.size) :
    t.stop = n + Text.width w := by
  have := h.add_width_le
  cases h
  exact UInt32.toNat_ofNat_of_lt (by omega)

theorem width_pos (h : Piece source file n w t) : 0 < Text.width w := by
  obtain ⟨-, hm, -⟩ := h
  exact Text.width_pos hm.ne_nil

theorem isBoundary (h : Piece source file n w t) :
    IsBoundary source n ∧ IsBoundary source (n + Text.width w) := by
  obtain ⟨hr, -, -⟩ := h
  exact ⟨hr.isBoundary, hr.append.isBoundary⟩

theorem slice_eq (h : Piece source file n w t) (hsize : source.utf8ByteSize < UInt32.size) :
    slice source t.start t.stop = .ofList w := by
  rw [h.start_eq hsize, h.stop_eq hsize]
  obtain ⟨hr, -, -⟩ := h
  exact hr.slice_eq

theorem kind_ne_eof (h : Piece source file n w t) : t.kind ≠ .eof := by
  obtain ⟨-, hm, hx⟩ := h
  exact hx.kind_ne_eof hm.mem

theorem value_eq (h : Piece source file n w t) (ht : t.kind ≠ .string) :
    String.ofList w = t.value := by
  obtain ⟨-, -, hx⟩ := h
  exact hx.value_eq ht

theorem exists_body (h : Piece source file n w t) (ht : t.kind = .string) :
    ∃ body, QuotedBody body ∧ w = '"' :: (body ++ ['"']) ∧
      t.value = .ofList (Escape.decode body) := by
  obtain ⟨-, hm, hx⟩ := h
  exact hx.exists_body hm.mem hm.accepts ht

/-- The piece by itself is read as its token. -/
theorem tokenize_eq (h : Piece source file n w t) (other : Option String) :
    ∃ u e, tokenize (.ofList w) other = .ok [u, e] ∧ u.kind = t.kind ∧ u.value = t.value ∧
      e.kind = .eof := by
  obtain ⟨-, hm, hx⟩ := h
  exact ⟨_, _, hm.tokenize_eq hx other, rfl, rfl, rfl⟩

end Piece

namespace Segmented

variable {source file : String} {n n' : Nat} {cs cs' : List Char} {ts : List Token}

theorem remains (h : Segmented file n cs ts n' cs') (hr : Remains source n cs) :
    n ≤ n' ∧ Remains source n' cs' := by
  induction h with
  | nil => exact ⟨Nat.le_refl _, hr⟩
  | token _ _ _ ih =>
    obtain ⟨hle, hr'⟩ := ih hr.append
    exact ⟨by omega, hr'⟩
  | skip _ _ _ ih =>
    obtain ⟨hle, hr'⟩ := ih hr.append
    exact ⟨by omega, hr'⟩

/-- Every token was read from a piece. -/
theorem exists_piece (h : Segmented file n cs ts n' cs') (hr : Remains source n cs) :
    ∀ t ∈ ts, ∃ m w, n ≤ m ∧ Piece source file m w t := by
  induction h with
  | nil => simp
  | token hm hx _ ih =>
    intro t ht
    rcases List.mem_cons.1 ht with rfl | ht
    · exact ⟨_, _, Nat.le_refl _, .mk hr hm hx⟩
    · obtain ⟨m, w, hle, hpiece⟩ := ih hr.append t ht
      exact ⟨m, w, by omega, hpiece⟩
  | skip _ _ _ ih =>
    intro t ht
    obtain ⟨m, w, hle, hpiece⟩ := ih hr.append t ht
    exact ⟨m, w, by omega, hpiece⟩

theorem exists_piece_of_ne {t : Token} (h : Segmented file n cs ts n' cs')
    (hr : Remains source n cs)
    (ht : t ∈ ts ++ [Token.eof (.ofNat n') file]) (hk : t.kind ≠ .eof) :
    ∃ m w, Piece source file m w t := by
  rcases List.mem_append.1 ht with ht | ht
  · obtain ⟨m, w, -, hpiece⟩ := h.exists_piece hr t ht
    exact ⟨m, w, hpiece⟩
  · obtain rfl := List.mem_singleton.1 ht
    exact absurd rfl hk

/-- **The spans follow one another.** -/
theorem pairwise (h : Segmented file n cs ts n' cs') (hr : Remains source n cs)
    (hsize : source.utf8ByteSize < UInt32.size) :
    (ts ++ [Token.eof (.ofNat n') file]).Pairwise fun t u => t.stop ≤ u.start := by
  induction h with
  | nil => exact List.pairwise_singleton _ _
  | @token n n' p w rest cs' x ts hm hx hs ih =>
    refine List.pairwise_cons.2 ⟨fun u hu => ?_, ih hr.append⟩
    have hpiece : Piece source file n w (x.token file n (Text.width w)) := .mk hr hm hx
    rw [hpiece.stop_eq hsize]
    rcases List.mem_append.1 hu with hu | hu
    · obtain ⟨m, v, hle, hpiece⟩ := hs.exists_piece hr.append u hu
      rwa [hpiece.start_eq hsize]
    · obtain rfl := List.mem_singleton.1 hu
      obtain ⟨hle, hr'⟩ := hs.remains hr.append
      have := hr'.add_width_eq
      rwa [(Token.offsets_eof (by omega) file).1]
  | skip _ _ _ ih => exact ih hr.append

end Segmented

/-! ## Between two spans -/

/-- Blanks and comments. A comment ends before a newline; only the last text of a source may end
with a comment. -/
inductive Trivia (last : Prop) : List Char → Prop
  | nil : Trivia last []
  | blank {c : Char} {cs : List Char} (hc : Text.isBlank c = true) (h : Trivia last cs) :
      Trivia last (c :: cs)
  | comment {ds cs : List Char} (hds : '\n' ∉ ds) (h : Trivia last ('\n' :: cs)) :
      Trivia last ('/' :: '/' :: (ds ++ '\n' :: cs))
  | lastComment {ds : List Char} (hlast : last) (hds : '\n' ∉ ds) : Trivia last ('/' :: '/' :: ds)

theorem Trivia.blanks {last : Prop} {ds cs : List Char} (hds : ∀ c ∈ ds, Text.isBlank c = true)
    (h : Trivia last cs) : Trivia last (ds ++ cs) := by
  induction ds with
  | nil => exact h
  | cons d ds ih =>
    rw [List.forall_mem_cons] at hds
    exact .blank hds.1 (ih hds.2)

/-- A comment goes on to the end of its line. -/
theorem Munch.end_of_comment {w rest : List Char} (h : Munch (w ++ rest) .comment w) :
    ∃ ds, w = '/' :: '/' :: ds ∧ '\n' ∉ ds ∧ (rest = [] ∨ ∃ cs, rest = '\n' :: cs) := by
  have ha := h.accepts
  cases ha with
  | @comment ds hds =>
    refine ⟨ds, rfl, hds, ?_⟩
    cases rest with
    | nil => exact .inl rfl
    | cons c cs =>
      right
      by_cases hc : c = '\n'
      · exact ⟨cs, by rw [hc]⟩
      · have hlonger : Pattern.comment.Accepts ('/' :: '/' :: (ds ++ [c])) :=
          .comment (by simp [hds, Ne.symm hc])
        have := h.longest _ h.mem _ hlonger ⟨cs, by simp⟩
        simp at this

/-- A piece that stands for a token does not begin with a blank. -/
theorem Munch.isBlank_of_head? {p : Pattern} {w rest : List Char} {x : Lexeme}
    (h : Munch (w ++ rest) p w) (hx : p.Stands w x) {c : Char} (hc : (w ++ rest).head? = some c) :
    Text.isBlank c = false := by
  obtain ⟨d, ds, rfl⟩ := List.exists_cons_of_ne_nil h.ne_nil
  obtain rfl : d = c := by simpa using hc
  rw [Bool.eq_false_iff]
  intro hblank
  have hinitial := h.accepts.ofChar_eq h.mem
  rw [Pattern.Initial.ofChar_of_isBlank hblank] at hinitial
  exact hx.initial_ne hinitial.symm

theorem Munch.head?_ne_newline {p : Pattern} {w rest : List Char} {x : Lexeme}
    (h : Munch (w ++ rest) p w) (hx : p.Stands w x) : (w ++ rest).head? ≠ some '\n' := by
  intro hc
  exact absurd (h.isBlank_of_head? hx hc) (by decide)

namespace Segmented

variable {source file : String} {n n' : Nat} {cs cs' : List Char} {ts : List Token}

theorem eq_nil (h : Segmented file n [] ts n' cs') : ts = [] := by
  generalize hcs : [] = cs at h
  cases h with
  | nil => rfl
  | token hm => exact absurd (List.append_eq_nil_iff.1 hcs.symm).1 hm.ne_nil
  | skip hm => exact absurd (List.append_eq_nil_iff.1 hcs.symm).1 hm.ne_nil

/-- Blanks and comments stand before the first token. -/
theorem exists_trivia {t : Token} (h : Segmented file n cs ts n' cs') (hend : cs' = [])
    (hr : Remains source n cs) (hsize : source.utf8ByteSize < UInt32.size)
    (ht : (ts ++ [Token.eof (.ofNat n') file]).head? = some t) :
    ∃ gap rest, cs = gap ++ rest ∧ t.start = n + Text.width gap ∧ Trivia (t.kind = .eof) gap ∧
      rest.head? ≠ some '\n' := by
  induction h with
  | nil n cs =>
    obtain rfl : Token.eof (.ofNat n) file = t := by simpa using ht
    have := hr.add_width_eq
    exact ⟨[], cs, rfl, (Token.offsets_eof (by omega) file).1, .nil, by simp [hend]⟩
  | @token n n' p w rest cs' x ts hm hx =>
    obtain rfl : x.token file n (Text.width w) = t := by simpa using ht
    exact ⟨[], w ++ rest, rfl, (Piece.mk hr hm hx).start_eq hsize, .nil, hm.head?_ne_newline hx⟩
  | @skip n n' p w rest cs' ts hm hp hs ih =>
    obtain ⟨gap, rest', rfl, hstart, hgap, hnewline⟩ := ih hend hr.append ht
    refine ⟨w ++ gap, rest', (List.append_assoc _ _ _).symm,
      by rw [hstart, Text.width_append]; omega, ?_, hnewline⟩
    rcases hp with rfl | rfl
    · have ha := hm.accepts
      cases ha with
      | blanks _ hw => exact hgap.blanks hw
    · obtain ⟨ds, rfl, hds, hrest | ⟨cs, hrest⟩⟩ := hm.end_of_comment
      · obtain ⟨rfl, rfl⟩ := List.append_eq_nil_iff.1 hrest
        have hnil := hs.eq_nil
        obtain rfl : Token.eof (.ofNat n') file = t := by simpa [hnil] using ht
        rw [List.append_nil]
        exact .lastComment rfl hds
      · -- the newline after the comment starts no token, so it belongs to the gap
        cases gap with
        | nil => simp [show rest' = '\n' :: cs from hrest] at hnewline
        | cons c gap =>
          obtain ⟨rfl, -⟩ := List.cons.inj hrest
          exact .comment hds hgap

theorem trivia_head {t : Token} (h : Segmented file n cs ts n' []) (hr : Remains source n cs)
    (hsize : source.utf8ByteSize < UInt32.size)
    (ht : (ts ++ [Token.eof (.ofNat n') file]).head? = some t) :
    Trivia (t.kind = .eof) (slice source n t.start).toList := by
  obtain ⟨gap, rest, rfl, hstart, hgap, -⟩ := h.exists_trivia rfl hr hsize ht
  rw [hstart, hr.slice_eq, String.toList_ofList]
  exact hgap

/-- **Blanks and comments stand between two tokens.** -/
theorem trivia {t u : Token} (h : Segmented file n cs ts n' cs') (hend : cs' = [])
    (hr : Remains source n cs) (hsize : source.utf8ByteSize < UInt32.size)
    (htu : [t, u] <:+: ts ++ [Token.eof (.ofNat n') file]) :
    Trivia (u.kind = .eof) (slice source t.stop u.start).toList := by
  induction h with
  | nil => exact absurd htu.length_le (by simp)
  | @token n n' p w rest cs' x ts hm hx hs ih =>
    rw [List.cons_append, List.infix_cons_iff, List.cons_prefix_cons] at htu
    obtain ⟨rfl, hu⟩ | htu := htu
    · subst hend
      have hpiece : Piece source file n w (x.token file n (Text.width w)) := .mk hr hm hx
      rw [hpiece.stop_eq hsize]
      refine hs.trivia_head hr.append hsize ?_
      obtain ⟨us, hus⟩ := hu
      rw [← hus]
      rfl
    · exact ih hend hr.append htu
  | skip _ _ _ ih => exact ih hend hr.append htu

end Segmented

/-! ## The tokens of a source -/

/-- The tokens tile the source. -/
structure Tiling (source : String) (ts : List Token) : Prop where
  /-- One token marks the end of the source, and it is the last. -/
  last : ∃ us e, ts = us ++ [e] ∧ (∀ t ∈ us, t.kind ≠ .eof) ∧ e.kind = .eof ∧
    e.start = source.utf8ByteSize ∧ e.stop = source.utf8ByteSize
  /-- The spans follow one another. -/
  ordered : ts.Pairwise fun t u => t.stop ≤ u.start
  /-- The spans start and stop between characters. -/
  inside : ∀ t ∈ ts, IsBoundary source t.start ∧ IsBoundary source t.stop ∧
    t.stop ≤ source.utf8ByteSize
  nonempty : ∀ t ∈ ts, t.kind ≠ .eof → t.start < t.stop
  /-- Blanks and comments stand before the first token. -/
  leading : ∀ t, ts.head? = some t → Trivia (t.kind = .eof) (slice source 0 t.start).toList
  /-- Blanks and comments stand between two tokens. -/
  between : ∀ t u, [t, u] <:+: ts → Trivia (u.kind = .eof) (slice source t.stop u.start).toList
  /-- A token other than a string is its text. -/
  plain : ∀ t ∈ ts, t.kind ≠ .eof → t.kind ≠ .string → slice source t.start t.stop = t.value
  /-- A string is what its text denotes. -/
  literal : ∀ t ∈ ts, t.kind = .string → ∃ body, QuotedBody body ∧
    (slice source t.start t.stop).toList = '"' :: (body ++ ['"']) ∧
    t.value = .ofList (Escape.decode body)
  /-- The text of a token is read as that token alone. -/
  alone : ∀ t ∈ ts, t.kind ≠ .eof → ∀ file, ∃ u e,
    tokenize (slice source t.start t.stop) file = .ok [u, e] ∧ u.kind = t.kind ∧
      u.value = t.value ∧ e.kind = .eof

/-- **The tokens of a source tile it.** -/
theorem tokenize_tiling {source : String} {file : Option String} {ts : List Token}
    (hsize : source.utf8ByteSize < UInt32.size) (h : tokenize source file = .ok ts) :
    Tiling source ts := by
  obtain ⟨us, n, hs, rfl⟩ := tokenize_eq_ok_iff.1 h
  have hr := remains_zero source
  have hrest := (hs.remains hr).2
  obtain rfl : n = source.utf8ByteSize := hrest.add_width_eq
  obtain ⟨hstart, hstop⟩ := Token.offsets_eof hsize (file.getD unnamedSource)
  constructor
  case last =>
    refine ⟨us, _, rfl, fun t ht => ?_, rfl, hstart, hstop⟩
    obtain ⟨m, w, -, hpiece⟩ := hs.exists_piece hr t ht
    exact hpiece.kind_ne_eof
  case ordered => exact hs.pairwise hr hsize
  case inside =>
    intro t ht
    rcases List.mem_append.1 ht with ht | ht
    · obtain ⟨m, w, -, hpiece⟩ := hs.exists_piece hr t ht
      rw [hpiece.start_eq hsize, hpiece.stop_eq hsize]
      exact ⟨hpiece.isBoundary.1, hpiece.isBoundary.2, hpiece.add_width_le⟩
    · obtain rfl := List.mem_singleton.1 ht
      rw [hstart, hstop]
      exact ⟨hrest.isBoundary, hrest.isBoundary, Nat.le_refl _⟩
  case nonempty =>
    intro t ht hk
    obtain ⟨m, w, hpiece⟩ := hs.exists_piece_of_ne hr ht hk
    have := hpiece.width_pos
    rw [hpiece.start_eq hsize, hpiece.stop_eq hsize]
    omega
  case leading => exact fun t ht => hs.trivia_head hr hsize ht
  case between => exact fun t u htu => hs.trivia rfl hr hsize htu
  case plain =>
    intro t ht hk hstring
    obtain ⟨m, w, hpiece⟩ := hs.exists_piece_of_ne hr ht hk
    rw [hpiece.slice_eq hsize, hpiece.value_eq hstring]
  case literal =>
    intro t ht hstring
    obtain ⟨m, w, hpiece⟩ := hs.exists_piece_of_ne hr ht (by simp [hstring])
    obtain ⟨body, hbody, rfl, hvalue⟩ := hpiece.exists_body hstring
    exact ⟨body, hbody, by rw [hpiece.slice_eq hsize, String.toList_ofList], hvalue⟩
  case alone =>
    intro t ht hk other
    obtain ⟨m, w, hpiece⟩ := hs.exists_piece_of_ne hr ht hk
    rw [hpiece.slice_eq hsize]
    exact hpiece.tokenize_eq other

/-- A string of seven bytes, between a comment that a newline ends and one that the source ends. -/
theorem tokenize_tiling_greeting :
    let source := "x = // à é\n \"hé\\n\" // ok"
    let ts : List Token := [⟨.identifier, "x", .ofNat 0 1 "shell"⟩,
      ⟨.assignment, "=", .ofNat 2 3 "shell"⟩, ⟨.string, "hé\n", .ofNat 14 21 "shell"⟩,
      .eof 27 "shell"]
    source.utf8ByteSize < UInt32.size ∧ tokenize source none = .ok ts ∧ Tiling source ts := by
  intro source ts
  have hsize : source.utf8ByteSize < UInt32.size := by decide
  have h : tokenize source none = .ok ts := by decide +kernel
  exact ⟨hsize, h, tokenize_tiling hsize h⟩

end ExprScript
