import ExprScript.Proofs.Lines
import ExprScript.Proofs.Obstacle
import ExprScript.Proofs.Provenance
import ExprScript.Report

/-!
# The caret of a report

The last line of a report has a caret, below the line in which the fault arose. It stands after as
many characters as the fault has bytes before it, so it marks the character at fault if and only if
everything before that character on its line is ASCII.

* `readSource_place`: a fault of reading stands before a character that is not a blank, or at the
  end of the source.
* `Text.Line.shown`, `Text.Line.column`: the line as it is shown, and the column of a place in it.
* `CaretAfter`: the last two lines of a report, and the column of the caret.
* **`Fault.report_caret`**: the caret stands after as many characters as there are bytes.
* **`caretAfter_column_iff`**: when the caret marks the place.
* **`runSource_caret`**: the carets of the faults of a source.
-/

namespace ExprScript

open Text

/-! ## Places of faults -/

/-- A fault of reading stands before a character that is not a blank, or at the end. -/
theorem readSource_place {source : String} {file : Option String} {f : Fault}
    (h : readSource source file = some (.error f)) :
    ∃ n cs, f.position = some (.ofNat n (file.getD unnamedSource)) ∧ Remains source n cs ∧
      ∀ c, cs.head? = some c → isBlank c = false := by
  have hr := remains_zero source
  cases ht : tokenize source file with
  | error fault =>
    rw [readSource, ht] at h
    cases h
    obtain ⟨us, n, c, cs, hs, hstuck, rfl⟩ := tokenize_eq_error_iff.1 ht
    refine ⟨n, c :: cs, rfl, (hs.remains hr).2, ?_⟩
    rintro _ ⟨⟩
    exact hstuck.barred.classes.2.2
  | ok ts =>
    rw [readSource, ht] at h
    obtain ⟨us, n, hs, rfl⟩ := tokenize_eq_ok_iff.1 ht
    obtain ⟨-, t, hmem, hposition⟩ := parse_fault rfl h
    rcases List.mem_append.1 hmem with hmem | hmem
    · obtain ⟨m, w, -, hpiece⟩ := hs.exists_piece hr t hmem
      cases hpiece with
      | mk hremains hm hx => exact ⟨m, _, hposition, hremains, fun c => hm.isBlank_of_head? hx⟩
    · obtain rfl := List.mem_singleton.1 hmem
      exact ⟨n, [], hposition, (hs.remains hr).2, by simp⟩

theorem readSource_of_malformed {rounds : Nat} {source : String} {file : Option String}
    {debug : Bool} {sink s : Sink} {f : Fault}
    (h : runSource rounds source file debug sink = some (.error f, s))
    (hf : f.cause.category = .malformed) : readSource source file = some (.error f) := by
  obtain ⟨r, hread, h⟩ := Option.bind_eq_some_iff.1 h
  cases r with
  | error fault =>
    cases h
    exact hread
  | ok program => exact absurd hf (run_fault h).2.1

/-! ## Blanks -/

namespace Text

theorem dropWhile_append_cons {p : Char → Bool} {c : Char} (hc : p c = false)
    (us vs : List Char) : (us ++ c :: vs).dropWhile p = us.dropWhile p ++ c :: vs := by
  rw [List.dropWhile_append]
  split_ifs with hnil
  · rw [List.isEmpty_iff.1 hnil, List.nil_append, List.dropWhile_cons_of_neg (by simp [hc])]
  · rfl

theorem trimEnd_append_cons {c : Char} (hc : isBlank c = false) (us vs : List Char) :
    trimEnd (us ++ c :: vs) = us ++ c :: trimEnd vs := by
  rw [trimEnd, List.reverse_append, List.reverse_cons, List.append_assoc, List.singleton_append,
    dropWhile_append_cons hc, List.reverse_append, List.reverse_cons, List.reverse_reverse,
    List.append_assoc]
  rfl

theorem mem_of_mem_trimEnd {cs : List Char} {c : Char} (h : c ∈ trimEnd cs) : c ∈ cs := by
  rw [trimEnd, List.mem_reverse] at h
  exact List.mem_reverse.1 ((List.dropWhile_sublist _).mem h)

theorem isIndent_iff {c : Char} : isIndent c = true ↔ c = ' ' ∨ c = '\t' := by
  simp [isIndent]

theorem isIndent_of_isBlank {c : Char} (h : isBlank c = false) : isIndent c = false := by
  rw [Bool.eq_false_iff, Ne, isIndent_iff]
  rintro (rfl | rfl)
  all_goals exact absurd h (by decide)

theorem forall_mem_dropWhile_indent {cs : List Char} :
    (∀ c ∈ cs.dropWhile isIndent, c.toNat < 128) ↔ ∀ c ∈ cs, c.toNat < 128 := by
  have hindent : ∀ c ∈ cs.takeWhile isIndent, c.toNat < 128 := by
    intro c hc
    rcases isIndent_iff.1 (List.all_eq_true.1 List.all_takeWhile c hc) with rfl | rfl <;> decide
  constructor
  · intro h c hc
    rw [← List.takeWhile_append_dropWhile (p := isIndent) (l := cs), List.mem_append] at hc
    exact hc.elim (hindent c) (h c)
  · exact fun h c hc => h c ((List.dropWhile_sublist _).mem hc)

/-! ## The shown line -/

namespace Line

/-- The line as it is shown: its number, and its text without the blanks around it. -/
def shown (line : Line) : List Char :=
  (Nat.repr line.number).toList ++ " | ".toList ++ trimEnd (line.text.dropWhile isIndent)

/-- The offset of the line stands between `pre` and `rest`. -/
def Splits (line : Line) (pre rest : List Char) : Prop :=
  line.text = pre ++ rest ∧ width pre = line.offset

instance (line : Line) (pre rest : List Char) : Decidable (line.Splits pre rest) :=
  inferInstanceAs (Decidable (_ ∧ _))

/-- The number of characters that come, in the shown line, before the place where `pre` ends. -/
def column (line : Line) (pre : List Char) : ℕ :=
  (Nat.repr line.number).length + 3 + (pre.dropWhile isIndent).length

/-- The number of bytes that come, in the shown line, before the offset of the line. -/
def byteColumn (line : Line) : ℕ :=
  (Nat.repr line.number).length + 3 + (line.offset - width (line.text.takeWhile isIndent))

/-- What stands before the bar, below the number of the line. -/
def margin (line : Line) : List Char :=
  List.replicate ((Nat.repr line.number).length + 1) ' ' ++ ['|']

/-- What stands before the caret. -/
def pad (line : Line) : List Char :=
  line.margin ++ ' ' :: List.replicate (line.offset - width (line.text.takeWhile isIndent)) '-'

variable {line : Line} {pre rest : List Char}

theorem Splits.getElem?_shown (h : line.Splits pre rest) {c : Char} (hc : rest.head? = some c)
    (hblank : isBlank c = false) : line.shown[line.column pre]? = some c := by
  obtain ⟨cs, rfl⟩ := List.head?_eq_some_iff.1 hc
  have hdrop : line.text.dropWhile isIndent = pre.dropWhile isIndent ++ c :: cs := by
    rw [h.1]
    exact dropWhile_append_cons (isIndent_of_isBlank hblank) pre cs
  have hcolumn : line.column pre =
      ((Nat.repr line.number).toList ++ " | ".toList ++ pre.dropWhile isIndent).length := by
    rw [List.length_append, List.length_append, String.length_toList]
    rfl
  rw [shown, hdrop, trimEnd_append_cons hblank, ← List.append_assoc, hcolumn]
  simp only [List.getElem?_append_right (Nat.le_refl _), Nat.sub_self, List.getElem?_cons_zero]

theorem Splits.byteColumn_eq (h : line.Splits pre rest) :
    line.byteColumn = (Nat.repr line.number).length + 3 + width (pre.dropWhile isIndent) := by
  have hpre : width (pre.takeWhile isIndent) + width (pre.dropWhile isIndent) = width pre := by
    rw [← width_append, List.takeWhile_append_dropWhile]
  rw [byteColumn, h.1, ← h.2, List.takeWhile_append]
  split_ifs with hall
  · -- the place is within the indentation
    have htake : pre.takeWhile isIndent = pre := (List.takeWhile_prefix _).eq_of_length hall
    rw [htake] at hpre
    rw [width_append]
    omega
  · omega

theorem length_pad (line : Line) : line.pad.length = line.byteColumn := by
  simp only [pad, margin, byteColumn, List.length_append, List.length_cons,
    List.length_replicate, List.length_nil]
  omega

theorem newline_notMem_shown {cs : List Char} {n : ℕ} {line : Line}
    (h : at? cs n = some line) : '\n' ∉ line.shown := by
  have hnumber : '\n' ∉ (Nat.repr line.number).toList := by
    rw [Nat.toList_repr]
    intro hmem
    exact absurd (Nat.isDigit_of_mem_toDigits (by decide) (by decide) hmem) (by decide)
  have hbody : '\n' ∉ trimEnd (line.text.dropWhile isIndent) := by
    obtain ⟨before, after, haround, -⟩ := exists_around h
    rcases haround.ends with ⟨hl, -, -⟩ | ⟨t, ht, hnewline, -⟩
    · exact fun hmem => hl ((List.dropWhile_sublist _).mem (mem_of_mem_trimEnd hmem))
    · have htrim : trimEnd (t.dropWhile isIndent ++ ['\n']) = trimEnd (t.dropWhile isIndent) :=
        List.rdropWhile_concat_pos _ _ _ (by decide)
      rw [ht, dropWhile_append_cons rfl, htrim]
      exact fun hmem => hnewline ((List.dropWhile_sublist _).mem (mem_of_mem_trimEnd hmem))
  rw [shown, List.mem_append, List.mem_append, not_or, not_or]
  exact ⟨⟨hnumber, by decide⟩, hbody⟩

end Line

end Text

/-! ## The caret -/

/-- The last two lines of the report are `shown`, and one with a caret after `k` characters. -/
def CaretAfter (report : String) (shown : List Char) (k : ℕ) : Prop :=
  ∃ head pad, report.toList = head ++ '\n' :: (shown ++ '\n' :: (pad ++ ['^', '\n'])) ∧
    '\n' ∉ shown ∧ '\n' ∉ pad ∧ '^' ∉ pad ∧ pad.length = k

theorem eq_of_append_newline {us vs xs ys : List Char} (hxs : '\n' ∉ xs) (hys : '\n' ∉ ys)
    (h : us ++ '\n' :: xs = vs ++ '\n' :: ys) : xs = ys := by
  rcases List.append_eq_append_iff.1 h with ⟨_ | ⟨a, as⟩, -, h⟩ | ⟨_ | ⟨a, as⟩, -, h⟩
  · exact (List.cons.inj h).2
  · exact absurd (by rw [(List.cons.inj h).2]; simp) hxs
  · exact (List.cons.inj h).2.symm
  · exact absurd (by rw [(List.cons.inj h).2]; simp) hys

theorem CaretAfter.unique {report : String} {shown shown' : List Char} {k k' : ℕ}
    (h : CaretAfter report shown k) (h' : CaretAfter report shown' k') : k = k' := by
  obtain ⟨head, pad, heq, -, hpad, -, rfl⟩ := h
  obtain ⟨head', pad', heq', -, hpad', -, rfl⟩ := h'
  rw [heq] at heq'
  have hends : (head ++ '\n' :: shown ++ '\n' :: pad) ++ ['^', '\n'] =
      (head' ++ '\n' :: shown' ++ '\n' :: pad') ++ ['^', '\n'] := by
    simpa using heq'
  rw [eq_of_append_newline hpad hpad' (List.append_cancel_right hends)]

theorem toList_alignRight {s : String} (h : s.length = 1) (n : ℕ) (c : Char) :
    (alignRight (n + 1) c s).toList = List.replicate n c ++ s.toList := by
  rw [alignRight, String.toList_append, String.toList_ofList, h, Nat.add_sub_cancel]

theorem toList_showLine (line : Line) :
    (showLine line).toList =
      line.margin ++ '\n' :: (line.shown ++ '\n' :: (line.pad ++ ['^', '\n'])) := by
  have hnewline : "\n".toList = ['\n'] := rfl
  have hspace : " ".toList = [' '] := rfl
  have hbar : "|".toList = ['|'] := rfl
  have hcaret : "^".toList = ['^'] := rfl
  simp only [showLine, String.toList_append, toList_alignRight (s := "|") rfl,
    toList_alignRight (s := "^") rfl, String.toList_ofList, Line.pad, Line.margin, Line.shown,
    hnewline, hspace, hbar, hcaret, List.append_assoc, List.cons_append, List.nil_append]

/-- **The caret stands after as many characters as there are bytes.** -/
theorem Fault.report_caret {f : Fault} {p : Position} {source : String} {line : Line}
    (hp : f.position = some p) (hline : Line.at? source.toList p.offset.toNat = some line) :
    CaretAfter (f.report source) line.shown line.byteColumn := by
  refine ⟨(f.headline ++ "\n" ++ "-> " ++ p.file ++ "\n").toList ++ line.margin, line.pad, ?_,
    Line.newline_notMem_shown hline, ?_, ?_, line.length_pad⟩
  · have hreport : f.report source =
        f.headline ++ "\n" ++ "-> " ++ p.file ++ "\n" ++ showLine line := by
      simp only [report, hp, placeText, hline, String.append_assoc]
    rw [hreport, String.toList_append, toList_showLine, List.append_assoc]
  · simp [Line.pad, Line.margin]
  · simp [Line.pad, Line.margin]

/-- **The caret marks the place** if and only if all that comes before it on its line is ASCII. -/
theorem caretAfter_column_iff {f : Fault} {p : Position} {source : String} {line : Line}
    (hp : f.position = some p) (hline : Line.at? source.toList p.offset.toNat = some line)
    {pre rest : List Char} (h : line.Splits pre rest) :
    CaretAfter (f.report source) line.shown (line.column pre) ↔ ∀ c ∈ pre, c.toNat < 128 := by
  have hcaret := Fault.report_caret hp hline
  rw [h.byteColumn_eq] at hcaret
  calc
    CaretAfter (f.report source) line.shown (line.column pre)
      ↔ width (pre.dropWhile isIndent) = (pre.dropWhile isIndent).length := by
        constructor
        · intro hcolumn
          exact Nat.add_left_cancel (hcaret.unique hcolumn)
        · intro heq
          rwa [heq] at hcaret
    _ ↔ ∀ c ∈ pre.dropWhile isIndent, c.toNat < 128 := width_eq_length_iff
    _ ↔ ∀ c ∈ pre, c.toNat < 128 := forall_mem_dropWhile_indent

/-- **The caret of a fault of reading** stands after as many characters as there are bytes before
the fault, so below it if and only if these are ASCII. -/
theorem runSource_caret {rounds : Nat} {source : String} {file : Option String} {debug : Bool}
    {sink s : Sink} {f : Fault} (h : runSource rounds source file debug sink = some (.error f, s))
    (hf : f.cause.category = .malformed) :
    ∃ p line, f.position = some p ∧ Line.at? source.toList p.offset.toNat = some line ∧
      CaretAfter (f.report source) line.shown line.byteColumn ∧
      (∀ pre rest, line.Splits pre rest →
        (CaretAfter (f.report source) line.shown (line.column pre) ↔ ∀ c ∈ pre, c.toNat < 128) ∧
        ∀ c, rest.head? = some c → isBlank c = false → line.shown[line.column pre]? = some c) ∧
      (source.utf8ByteSize < UInt32.size → ∃ pre rest, line.Splits pre rest ∧
        (∀ c, rest.head? = some c → isBlank c = false) ∧
        (rest = [] → p.offset.toNat = source.utf8ByteSize)) := by
  obtain ⟨n, cs, hp, hr, hcs⟩ := readSource_place (readSource_of_malformed h hf)
  have hle : n ≤ source.utf8ByteSize := by
    have := hr.add_width_eq
    omega
  obtain ⟨line, hline⟩ : ∃ line, Line.at? source.toList (UInt32.ofNat n).toNat = some line := by
    refine exists_line (Nat.le_trans ?_ hle)
    rw [UInt32.toNat_ofNat']
    exact Nat.mod_le _ _
  refine ⟨_, line, hp, hline, Fault.report_caret hp hline, fun pre rest hsplits =>
    ⟨caretAfter_column_iff hp hline hsplits, fun c => hsplits.getElem?_shown⟩, fun hsize => ?_⟩
  have hoffset : (UInt32.ofNat n).toNat = n := UInt32.toNat_ofNat_of_lt (by omega)
  have hsum := hr.add_width_eq
  obtain ⟨us, hsource, rfl⟩ := hr
  obtain ⟨line', pre, rest, after, hline', htext, hpre, rfl, hend⟩ := Line.at?_append us cs
  rw [hoffset, hsource, hline'] at hline
  cases hline
  refine ⟨pre, rest, ⟨htext, hpre⟩, fun c hc => hcs c ?_, fun hrest => ?_⟩
  · rw [List.head?_append, hc]
    rfl
  · rw [hend hrest, width_nil] at hsum
    exact hoffset.trans hsum

theorem runSource_caret_tab :
    let source := "1;\n\t y \"é\""
    let fault := Fault.located (.unexpected "é") ⟨7, "shell"⟩
    let shown := "2 | y \"é\"".toList
    runSource 0 source none false .unlimited = some (.error fault, .unlimited) ∧
      fault.cause.category = .malformed ∧ CaretAfter (fault.report source) shown 6 ∧
      shown[6]? = some '"' := by
  intro source fault shown
  have hrun : runSource 0 source none false .unlimited = some (.error fault, .unlimited) := by
    decide +kernel
  obtain ⟨p, line, hp, hline, -, hplace, -⟩ := runSource_caret hrun rfl
  cases hp
  have hfound : Line.at? source.toList 7 = some ⟨2, "\t y \"é\"".toList, 4⟩ := by decide +kernel
  obtain rfl : _ = line := Option.some.inj (hfound.symm.trans hline)
  have hshown : Line.shown ⟨2, "\t y \"é\"".toList, 4⟩ = shown := by decide +kernel
  have hcolumn : Line.column ⟨2, "\t y \"é\"".toList, 4⟩ "\t y ".toList = 6 := by decide +kernel
  obtain ⟨hcaret, hat⟩ := hplace "\t y ".toList "\"é\"".toList (by decide +kernel)
  rw [hshown, hcolumn] at hcaret hat
  exact ⟨hrun, rfl, hcaret.2 (by simp), hat '"' rfl (by decide +kernel)⟩

/-- Two accents before the fault put the caret two columns beyond it. -/
theorem caret_beyond_accents :
    let source := "\"éé\" \"b\""
    let fault := Fault.located (.unexpected "b") ⟨7, "shell"⟩
    let line : Line := ⟨1, source.toList, 7⟩
    let pre := "\"éé\" ".toList
    let rest := "\"b\"".toList
    runSource 0 source none false .unlimited = some (.error fault, .unlimited) ∧
      fault.cause.category = .malformed ∧ Line.at? source.toList 7 = some line ∧
      line.Splits pre rest ∧ line.column pre = 9 ∧ line.shown[9]? = some '"' ∧
      CaretAfter (fault.report source) line.shown 11 ∧
      ¬ CaretAfter (fault.report source) line.shown 9 := by
  intro source fault line pre rest
  have hrun : runSource 0 source none false .unlimited = some (.error fault, .unlimited) := by
    decide +kernel
  have hline : Line.at? source.toList 7 = some line := by decide
  have hcolumn : line.byteColumn = 11 := by decide +kernel
  have hcaret := Fault.report_caret (f := fault) rfl hline
  rw [hcolumn] at hcaret
  refine ⟨hrun, rfl, hline, by decide +kernel, by decide +kernel, by decide +kernel, hcaret,
    fun h => ?_⟩
  exact absurd (h.unique hcaret) (by decide)

end ExprScript
