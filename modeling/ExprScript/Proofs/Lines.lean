import ExprScript.Proofs.Bytes
import ExprScript.Text.Line
import Mathlib.Data.List.DropRight

/-!
# The line of an offset

A text is cut around the line that holds an offset: what comes before it ends in a newline, unless
it is empty, and the line goes on to its first newline, or to the end of the text. The offset may
stand within a character, so the line is told by the bytes of the text.

* `lines_of_notMem`, `lines_append`: a text of one line, and the first line of a longer one.
* `Around`: a text cut around a line; `exists_around`: the search for an offset cuts the text.
* `Line.at?_append`: the line of an offset between two characters.
* `lineStart`, `lineStop`: where the line of an offset starts and stops among the bytes.
* **`line_at_offset`**: the line that is found for an offset.
-/

namespace ExprScript.Text

/-! ## Lines -/

theorem lines_of_notMem {cs : List Char} (h : '\n' ∉ cs) : lines cs = [cs] := by
  induction cs with
  | nil => rfl
  | cons c cs ih =>
    rw [List.mem_cons, not_or] at h
    rw [lines, if_neg (Ne.symm h.1), ih h.2]

theorem lines_append {t : List Char} (h : '\n' ∉ t) (cs : List Char) :
    lines (t ++ '\n' :: cs) = (t ++ ['\n']) :: lines cs := by
  induction t with
  | nil => simp [lines]
  | cons c t ih =>
    rw [List.mem_cons, not_or] at h
    rw [List.cons_append, lines, if_neg (Ne.symm h.1), ih h.2]
    rfl

theorem Line.locate_cons {number n : ℕ} {l : List Char} {ls : List (List Char)} (h : ls ≠ []) :
    locate number n (l :: ls) =
      if n < width l then ⟨number, l, n⟩ else locate (number + 1) (n - width l) ls := by
  cases ls with
  | nil => exact absurd rfl h
  | cons => rfl

theorem width_newline : width ['\n'] = 1 := rfl

/-! ## Cutting a text -/

/-- The text is cut around the line `l`, which holds the offset `n`. A newline belongs to the line
that it ends. -/
structure Around (cs : List Char) (n : ℕ) (before l after : List Char) : Prop where
  eq : cs = before ++ (l ++ after)
  starts : before = [] ∨ ∃ t, before = t ++ ['\n']
  le : width before ≤ n
  ends : ('\n' ∉ l ∧ after = [] ∧ n ≤ width before + width l) ∨
    ∃ t, l = t ++ ['\n'] ∧ '\n' ∉ t ∧ n < width before + width l

/-- A line that is put before the text moves the offset by its width. -/
theorem Around.cons {cs t before l after : List Char} {n : ℕ} (h : Around cs n before l after) :
    Around (t ++ '\n' :: cs) (n + width (t ++ ['\n'])) (t ++ '\n' :: before) l after where
  eq := by rw [h.eq, List.append_assoc, List.cons_append]
  starts := by
    right
    rcases h.starts with rfl | ⟨s, rfl⟩
    · exact ⟨t, rfl⟩
    · exact ⟨t ++ '\n' :: s, by simp⟩
  le := by
    have := h.le
    simp only [width_append, width_cons, width_nil]
    omega
  ends := by
    simp only [width_append, width_cons, width_nil]
    rcases h.ends with ⟨hl, hafter, hle⟩ | ⟨s, hl, hs, hlt⟩
    · exact .inl ⟨hl, hafter, by omega⟩
    · exact .inr ⟨s, hl, hs, by omega⟩

theorem Around.le_add {cs before l after : List Char} {n : ℕ} (h : Around cs n before l after) :
    n ≤ width before + width l := by
  rcases h.ends with ⟨-, -, hle⟩ | ⟨-, -, -, hlt⟩ <;> omega

/-- **The search for an offset cuts the text.** -/
theorem exists_around {cs : List Char} {n : ℕ} (h : n ≤ width cs) (number : ℕ) :
    ∃ before l after, Around cs n before l after ∧
      Line.locate number n (lines cs) = ⟨number + before.count '\n', l, n - width before⟩ := by
  -- a step of the search passes over a whole line, so the induction is on the length of the text
  induction hlen : cs.length using Nat.strongRecOn generalizing cs n number with
  | ind _ ih =>
    by_cases hnewline : '\n' ∈ cs
    · obtain ⟨t, ds, rfl, ht⟩ := List.eq_append_cons_of_mem hnewline
      rw [lines_append ht, Line.locate_cons (lines_ne_nil ds)]
      by_cases hn : n < width (t ++ ['\n'])
      · rw [if_pos hn]
        refine ⟨[], t ++ ['\n'], ds, ⟨by simp, .inl rfl, Nat.zero_le n, ?_⟩, by simp⟩
        exact .inr ⟨t, rfl, ht, by simpa using hn⟩
      · rw [if_neg hn]
        have hle : n - width (t ++ ['\n']) ≤ width ds := by
          simp only [width_append, width_cons, width_nil] at h ⊢
          omega
        obtain ⟨before, l, after, haround, hline⟩ :=
          ih ds.length (by simp [← hlen]; omega) hle (number + 1) rfl
        refine ⟨t ++ '\n' :: before, l, after, ?_, ?_⟩
        · have := haround.cons (t := t)
          rwa [Nat.sub_add_cancel (Nat.le_of_not_lt hn)] at this
        · rw [hline, List.count_append, List.count_cons_self, List.count_eq_zero_of_not_mem ht]
          simp only [width_append, width_cons, width_nil, Line.mk.injEq, true_and]
          omega
    · rw [lines_of_notMem hnewline]
      exact ⟨[], cs, [], ⟨by simp, .inl rfl, Nat.zero_le n, .inl ⟨hnewline, rfl, by simpa using h⟩⟩,
        by simp [Line.locate]⟩

theorem Line.exists_around {cs : List Char} {n : ℕ} {line : Line} (h : Line.at? cs n = some line) :
    ∃ before after, Around cs n before line.text after ∧ line.number = 1 + before.count '\n' ∧
      line.offset = n - width before := by
  rw [Line.at?] at h
  split_ifs at h with hn
  obtain ⟨before, l, after, haround, hline⟩ := Text.exists_around (Nat.le_of_not_lt hn) 1
  rw [hline] at h
  cases h
  exact ⟨before, after, haround, rfl, rfl⟩

/-! ## Characters -/

theorem exists_append_of_width_le {as bs cs ds : List Char} (h : as ++ bs = cs ++ ds)
    (hle : width as ≤ width cs) : ∃ ms, cs = as ++ ms ∧ bs = ms ++ ds := by
  rcases List.append_eq_append_iff.1 h with hms | ⟨ms, rfl, rfl⟩
  · exact hms
  · rw [width_append] at hle
    obtain rfl : ms = [] := width_eq_zero.1 (by omega)
    exact ⟨[], by simp, rfl⟩

/-- The line of an offset between two characters. -/
theorem Line.at?_append (us vs : List Char) :
    ∃ line pre rest after, Line.at? (us ++ vs) (width us) = some line ∧ line.text = pre ++ rest ∧
      width pre = line.offset ∧ vs = rest ++ after ∧ (rest = [] → vs = []) := by
  obtain ⟨line, hline⟩ : ∃ line, Line.at? (us ++ vs) (width us) = some line := by
    rw [← Option.ne_none_iff_exists', Ne, Line.at?_eq_none_iff, width_append]
    omega
  obtain ⟨before, after, haround, -, hoffset⟩ := Line.exists_around hline
  have hle := haround.le_add
  obtain ⟨pre, rfl, hpre⟩ := exists_append_of_width_le haround.eq.symm haround.le
  rw [width_append] at hle hoffset
  obtain ⟨rest, htext, hrest⟩ := exists_append_of_width_le hpre.symm (by omega)
  refine ⟨line, pre, rest, after, hline, htext, by omega, hrest, ?_⟩
  rintro rfl
  rcases haround.ends with ⟨-, hafter, -⟩ | ⟨-, -, -, hlt⟩
  · rw [hrest, hafter]
    rfl
  · rw [htext, List.append_nil, width_append] at hlt
    omega

/-! ## Bytes -/

/-- The offset after the last newline of the first `n` bytes, zero if they have none. -/
def lineStart (bs : List UInt8) (n : ℕ) : ℕ := ((bs.take n).rdropWhile (· ≠ newline)).length

/-- The offset after the first newline that is not before the offset `n`, or the end of the bytes if
there is none. -/
def lineStop (bs : List UInt8) (n : ℕ) : ℕ := min bs.length (n + (bs.drop n).idxOf newline + 1)

namespace Around

variable {cs before l after : List Char} {n : ℕ}

theorem sub_le (h : Around cs n before l after) : n - width before ≤ (bytes l).length := by
  have := h.le_add
  rw [length_bytes]
  omega

theorem take_bytes (h : Around cs n before l after) :
    (bytes cs).take n = bytes before ++ (bytes l).take (n - width before) := by
  rw [h.eq, bytes_append, bytes_append, List.take_append, List.take_of_length_le (by simp [h.le]),
    length_bytes, List.take_append_of_le_length h.sub_le]

theorem drop_bytes (h : Around cs n before l after) :
    (bytes cs).drop n = (bytes l).drop (n - width before) ++ bytes after := by
  rw [h.eq, bytes_append, bytes_append, List.drop_append, List.drop_of_length_le (by simp [h.le]),
    List.nil_append, length_bytes, List.drop_append_of_le_length h.sub_le]

theorem newline_notMem (h : Around cs n before l after) :
    newline ∉ (bytes l).take (n - width before) := by
  rcases h.ends with ⟨hl, -, -⟩ | ⟨t, rfl, ht, hlt⟩
  · exact fun hmem => hl (newline_mem_bytes_iff.1 (List.mem_of_mem_take hmem))
  · rw [width_append, width_newline] at hlt
    have hle : n - width before ≤ (bytes t).length := by
      rw [length_bytes]
      omega
    rw [bytes_append, List.take_append_of_le_length hle]
    exact fun hmem => ht (newline_mem_bytes_iff.1 (List.mem_of_mem_take hmem))

theorem count_newline (h : Around cs n before l after) :
    ((bytes cs).take n).count newline = before.count '\n' := by
  rw [h.take_bytes, List.count_append, count_newline_bytes,
    List.count_eq_zero_of_not_mem h.newline_notMem, Nat.add_zero]

theorem lineStart_eq (h : Around cs n before l after) :
    lineStart (bytes cs) n = width before := by
  have hhead : ∀ b ∈ ((bytes l).take (n - width before)).reverse, decide (b ≠ newline) = true := by
    intro b hb
    rw [List.mem_reverse] at hb
    exact decide_eq_true fun heq => h.newline_notMem (heq ▸ hb)
  rw [lineStart, h.take_bytes, List.rdropWhile, List.reverse_append,
    List.dropWhile_append_of_pos hhead, ← List.rdropWhile, ← length_bytes]
  rcases h.starts with rfl | ⟨t, rfl⟩
  · rfl
  · rw [bytes_append]
    exact congrArg List.length (List.rdropWhile_concat_neg _ _ _ (by decide))

theorem lineStop_eq (h : Around cs n before l after) :
    lineStop (bytes cs) n = width before + width l := by
  have hle := h.le
  have hlength : (bytes cs).length = width before + (width l + width after) := by
    rw [h.eq, length_bytes, width_append, width_append]
  rw [lineStop, h.drop_bytes, hlength]
  rcases h.ends with ⟨hl, rfl, hn⟩ | ⟨t, rfl, ht, hn⟩
  · have hnone : newline ∉ (bytes l).drop (n - width before) :=
      fun hmem => hl (newline_mem_bytes_iff.1 (List.mem_of_mem_drop hmem))
    rw [bytes_nil, List.append_nil, List.idxOf_of_notMem hnone, List.length_drop, length_bytes,
      width_nil]
    omega
  · rw [width_append, width_newline] at hn ⊢
    have hnone : newline ∉ (bytes t).drop (n - width before) :=
      fun hmem => ht (newline_mem_bytes_iff.1 (List.mem_of_mem_drop hmem))
    have hsplit : (bytes (t ++ ['\n'])).drop (n - width before) =
        (bytes t).drop (n - width before) ++ [newline] := by
      rw [bytes_append, List.drop_append_of_le_length (by rw [length_bytes]; omega)]
      rfl
    rw [hsplit, List.append_assoc, List.idxOf_append_of_notMem hnone, List.length_drop,
      length_bytes, List.singleton_append, List.idxOf_cons_self]
    omega

theorem slice_bytes (h : Around cs n before l after) :
    ((bytes cs).take (width before + width l)).drop (width before) = bytes l := by
  rw [h.eq, ← List.append_assoc, bytes_append, ← width_append, ← length_bytes (before ++ l),
    List.take_left, bytes_append, ← length_bytes before, List.drop_left]

end Around

/-- **The line of an offset** goes from the last newline before it through the next one. Only an
offset beyond the end has none. -/
theorem line_at_offset (content : String) (n : ℕ) :
    (Line.at? content.toList n = none ↔ content.utf8ByteSize < n) ∧
    ∀ line, Line.at? content.toList n = some line →
      let bs := content.toUTF8.data.toList
      line.number = 1 + (bs.take n).count newline ∧
        bytes line.text = (bs.take (lineStop bs n)).drop (lineStart bs n) ∧
        line.offset = n - lineStart bs n := by
  refine ⟨by rw [Line.at?_eq_none_iff, width_toList], ?_⟩
  intro line hline bs
  have hbs : bs = bytes content.toList := data_toUTF8 content
  obtain ⟨before, after, haround, hnumber, hoffset⟩ := Line.exists_around hline
  rw [hbs, haround.count_newline, haround.lineStart_eq, haround.lineStop_eq,
    haround.slice_bytes]
  exact ⟨hnumber, rfl, hoffset⟩

/-- An offset within a character, in the second of three lines. -/
theorem line_at_offset_second :
    let line : Line := ⟨2, "aé\n".toList, 2⟩
    Line.at? "x\naé\n".toList 4 = some line ∧
      (line.number = 1 + ("x\naé\n".toUTF8.data.toList.take 4).count newline ∧
        bytes line.text = ("x\naé\n".toUTF8.data.toList.take 6).drop 2 ∧ line.offset = 4 - 2) := by
  intro line
  have hline : Line.at? "x\naé\n".toList 4 = some line := by decide
  exact ⟨hline, (line_at_offset "x\naé\n" 4).2 line hline⟩

example :
    Line.at? "é\n".toList 3 = some ⟨2, [], 0⟩ ∧ Line.at? "é".toList 2 = some ⟨1, ['é'], 2⟩ := by
  decide

end ExprScript.Text
