import ExprScript.Proofs.Chunks
import ExprScript.Proofs.Frame
import ExprScript.Proofs.Literals
import ExprScript.Proofs.RoundTrip
import Mathlib.Data.Nat.Digits.Defs

/-!
# Integers as programs

Digits are a program, and so are a minus sign and digits. The digits are made a word before the sign
changes it, so a magnitude of `2 ^ 63` is too large on either side of zero. The least integer is
therefore the only one whose text is not a program that gives it back.

* `decimalValue`: the number that digits denote.
* `Evaluates`, `Refuses`: how the runs of a source end.
* `tokenize_digits`, `tokenize_minus`: the tokens of the two sources.
* `Goal.Fails`: a reading that ends with a fault; `Goal.fails_program`, …: what it is passed on by.
* **`integer_literals`**: what the two sources evaluate to, and which of them are refused.
-/

namespace ExprScript

/-- The number that decimal digits denote: the last of them counts ones, the one before it tens. -/
def decimalValue (ds : List Char) : ℕ :=
  Nat.ofDigits 10 (ds.reverse.map fun c => c.toNat - '0'.toNat)

theorem ofDigits_eq_decimalValue (ds : List Char) : Number.ofDigits ds = decimalValue ds := by
  induction ds using List.reverseRecOn with
  | nil => rfl
  | append_singleton ds c ih =>
    rw [decimalValue, List.reverse_concat, List.map_cons, Nat.ofDigits_cons, ← decimalValue, ← ih]
    simp only [Number.ofDigits, Nat.ofDigitChars, List.foldl_append, List.foldl_cons,
      List.foldl_nil]
    exact Nat.add_comm _ _

/-! ## How runs end -/

/-- Every run of the source gives the value and leaves no bindings. If the run is to be written out,
the sink has to take it in; else nothing is written. -/
def Evaluates (source : String) (v : Value) : Prop :=
  ∀ (rounds : Nat) (file : Option String) (debug : Bool) (sink : Sink),
    debug = false ∨ sink.Reliable →
      ∃ sink', runSource rounds source file debug sink = some (.ok ⟨v, none, .empty⟩, sink') ∧
        (debug = false → sink' = sink)

/-- Every run of the source fails at the digits, which stand at the offset, and writes nothing. -/
def Refuses (source digits : String) (offset : UInt32) : Prop :=
  ∀ (rounds : Nat) (file : Option String) (debug : Bool) (sink : Sink),
    runSource rounds source file debug sink =
      some (.error (.located (.badNumber digits) ⟨offset, file.getD unnamedSource⟩), sink)

theorem Sink.Reliable.writeLine {s : Sink} (h : s.Reliable) (text : String) (a : Arena) :
    ∃ s' : Sink, s'.Reliable ∧ Action.writeLine text ⟨a, s⟩ = some (.ok (), ⟨a, s'⟩) := by
  refine ⟨s.keep (text ++ "\n").toUTF8, h, ?_⟩
  rw [Action.writeLine_apply, write_unlimited h.1]
  rfl

theorem Sink.Reliable.dump {s : Sink} (h : s.Reliable) (e : Expr) (f : Finish) (a : Arena) :
    ∃ s' : Sink, ExprScript.dump e f ⟨a, s⟩ = some (.ok (), ⟨a, s'⟩) := by
  obtain ⟨s₁, h₁, hw₁⟩ := h.writeLine ("program: " ++ e.text) a
  obtain ⟨s₂, h₂, hw₂⟩ :=
    h₁.writeLine ("final_value: (" ++ f.value.text ++ ", " ++ f.value.tag.name ++ ")") a
  obtain ⟨s₃, h₃, hw₃⟩ := h₂.writeLine ("final_state: " ++ f.render) a
  refine ⟨s₃, ?_⟩
  rw [ExprScript.dump, Attempt.bind_of_ok hw₁, Attempt.bind_of_ok hw₂, Attempt.bind_of_ok hw₃,
    Action.flush_eq, Sink.flush, h₃.2]
  rfl

/-- A literal evaluates to itself. -/
theorem runAction_literal (rounds : Nat) (v : Value) {debug : Bool} {sink : Sink}
    (h : debug = false ∨ sink.Reliable) :
    ∃ sink', (debug = false → sink' = sink) ∧
      runAction rounds (.program [.literal v]) debug (.fresh sink) =
        some (.ok ⟨v, none, .empty⟩, ⟨.empty, sink'⟩) := by
  have hval : (Expr.program [.literal v]).eval rounds none (.fresh sink) =
      some (.ok ⟨v, none⟩, .fresh sink) := rfl
  rw [runAction, Attempt.bind_of_ok hval, Attempt.bind_of_ok (Attempt.state_apply _)]
  cases debug with
  | false => exact ⟨sink, fun _ => rfl, rfl⟩
  | true =>
    have hsink : sink.Reliable := h.resolve_left (by simp)
    obtain ⟨s, hs⟩ := hsink.dump (.program [.literal v]) ⟨v, none, .empty⟩ .empty
    exact ⟨s, by simp, Attempt.bind_of_ok hs _⟩

theorem evaluates_of_readSource {source : String} {v : Value}
    (h : ∀ file, readSource source file = some (.ok (.program [.literal v]))) :
    Evaluates source v := by
  intro rounds file debug sink hsink
  obtain ⟨sink', hsame, hrun⟩ := runAction_literal rounds v hsink
  refine ⟨sink', ?_, hsame⟩
  rw [runSource, h file]
  change run rounds (.program [.literal v]) debug sink = _
  rw [run, hrun]
  rfl

theorem refuses_of_readSource {source digits : String} {offset : UInt32}
    (h : ∀ file, readSource source file =
      some (.error (.located (.badNumber digits) ⟨offset, file.getD unnamedSource⟩))) :
    Refuses source digits offset := by
  intro rounds file debug sink
  rw [runSource, h file]
  rfl

/-! ## Tokens -/

section Tokens

variable {d : String}

/-- The token of the digits at offset `n`. -/
def numberToken (d : String) (file : String) (n : Nat) : Token :=
  Lexeme.token ⟨.number, d⟩ file n (Text.width d.toList)

theorem segmented_digits (hd : IsDigits d.toList) (file : String) (n : Nat) :
    Segmented file n d.toList [numberToken d file n] (n + Text.width d.toList) [] := by
  have hm : Munch (d.toList ++ []) .number d.toList := by
    rw [List.append_nil]
    exact (Pattern.Accepts.whole hd).munch (by decide)
  have hs : Segmented file n (d.toList ++ []) [numberToken d file n] _ [] :=
    .token hm (.number d) (.nil _ [])
  rwa [List.append_nil] at hs

/-- A minus sign is a piece of its own, whatever comes after it. -/
theorem munch_minus (cs : List Char) : Munch (['-'] ++ cs) (.mark .dash "-") ['-'] :=
  munch_iff.2 ⟨rfl, rfl⟩

theorem tokenize_digits (hd : IsDigits d.toList) (file : Option String) :
    ∃ e : Token, e.kind = .eof ∧
      tokenize d file = .ok ([numberToken d (file.getD unnamedSource) 0] ++ [e]) :=
  ⟨_, rfl, (segmented_digits hd (file.getD unnamedSource) 0).tokenize_eq_ok⟩

theorem tokenize_minus (hd : IsDigits d.toList) (file : Option String) :
    ∃ s e : Token, s.kind = .dash ∧ e.kind = .eof ∧
      tokenize ("-" ++ d) file = .ok ([s, numberToken d (file.getD unnamedSource) 1] ++ [e]) := by
  have hs := Segmented.token (munch_minus d.toList) (.mark .dash "-")
    (segmented_digits hd (file.getD unnamedSource) (0 + Text.width ['-']))
  have hlist : ("-" ++ d).toList = ['-'] ++ d.toList := String.toList_append
  rw [← hlist] at hs
  exact ⟨_, _, rfl, rfl, hs.tokenize_eq_ok⟩

end Tokens

/-! ## Magnitudes that are words -/

theorem Derives.items_of_unary {u : List Token} {e : Expr} (h : Derives .unary u e) :
    Derives .items u (.sequence [e]) :=
  .lastItem h.expr_of_unary

section Words

variable {d : String}

theorem derives_digits {i : Int64} (h : numberValue? d = some (.integer i)) (file : String)
    (n : Nat) : Derives .unary [numberToken d file n] (.literal (.integer i)) :=
  .simple (.number rfl h)

theorem readSource_digits (hd : IsDigits d.toList) {i : Int64}
    (h : numberValue? d = some (.integer i)) (file : Option String) :
    readSource d file = some (.ok (.program [.literal (.integer i)])) := by
  obtain ⟨e, -, hts⟩ := tokenize_digits hd file
  exact readSource_eq_ok_iff.2 ⟨_, e, _, hts, rfl, (derives_digits h _ _).items_of_unary⟩

theorem readSource_minus (hd : IsDigits d.toList) {i : Int64}
    (h : numberValue? d = some (.integer i)) (file : Option String) :
    readSource ("-" ++ d) file = some (.ok (.program [.literal (.integer (-i))])) := by
  obtain ⟨s, e, hs, -, hts⟩ := tokenize_minus hd file
  have hneg := Derives.negativeInteger hs (derives_digits h (file.getD unnamedSource) 1)
  exact readSource_eq_ok_iff.2 ⟨_, e, _, hts, rfl, hneg.items_of_unary⟩

end Words

/-! ## Magnitudes that are too large -/

namespace Goal

/-- The reading ends with the fault, within the budget. -/
def Fails (n : Nat) (goal : Goal) (c : Cursor) (f : Fault) : Prop :=
  ∃ c', goal.read .standard n c = some (.error f, c')

variable {n : Nat} {c : Cursor} {f : Fault}

/-- A number that cannot be read is a fault at its token. -/
theorem fails_primary (hk : c.kind = .number) (h : c.current.expr? = none) :
    (opening .primary).Fails (n + 1) c (.located (.badNumber c.current.value) c.position) := by
  refine ⟨c.advance, ?_⟩
  change Parse.primary c = _
  rw [Cursor.kind] at hk
  rw [Parse.primary, Parse.peek_bind_apply, hk]
  dsimp only
  rw [Parse.next_bind_apply, h]
  rfl

theorem fails_expr {bound : Power} {form : Opening}
    (hf : Grammar.standard.opening? c.kind = some form) (h : (opening form).Fails n c f) :
    (expr bound).Fails (n + 1) c f := by
  obtain ⟨c', h⟩ := h
  refine ⟨c', ?_⟩
  rw [Cursor.kind] at hf
  rw [read, Parse.peek_bind_apply, hf]
  exact Attempt.bind_of_error h _

theorem fails_signed (h : (expr .unary).Fails n c.advance f) :
    (opening .signed).Fails (n + 1) c f := by
  obtain ⟨c', h⟩ := h
  refine ⟨c', ?_⟩
  rw [read, Parse.next_bind_apply]
  exact Attempt.bind_of_error h _

theorem fails_item (h : (expr .lowest).Fails n c f) : (opening .item).Fails (n + 1) c f := by
  obtain ⟨c', h⟩ := h
  refine ⟨c', ?_⟩
  rw [read]
  exact Attempt.bind_of_error h _

theorem fails_program {items : List Expr} (hk : c.kind ≠ .eof) (h : (opening .item).Fails n c f) :
    (program items).Fails (n + 1) c f := by
  obtain ⟨c', h⟩ := h
  refine ⟨c', ?_⟩
  rw [Cursor.kind] at hk
  rw [read, Parse.peek_bind_apply, if_neg hk]
  exact Attempt.bind_of_error h _

end Goal

theorem parse_of_fails {ts : List Token} {file : String} {f : Fault}
    (h : (Goal.program []).Fails (Cursor.start ts file).budget (Cursor.start ts file) f) :
    parse ts file = some (.error f) := by
  obtain ⟨c, h⟩ := h
  rw [parse, h]
  rfl

theorem Cursor.start_of_end {t : Token} {ts : List Token} {e : Token} (he : e.kind = .eof)
    (file : String) : Cursor.start (t :: (ts ++ [e])) file = ⟨[], t, ts ++ [e]⟩ := by
  have hlast : (t :: (ts ++ [e])).getLast? = some e := by
    rw [← List.cons_append, List.getLast?_concat]
  rw [start, completed, hlast]
  simp [he]

section Large

variable {d : String}

theorem fails_digits {c : Cursor} {file : String} {n : Nat} {bound : Power} {k : Nat}
    (hd : numberValue? d = none) (hc : c.current = numberToken d file n) :
    (Goal.expr bound).Fails (k + 2) c (.located (.badNumber d) (.ofNat n file)) := by
  have hk : c.kind = .number := congrArg Token.kind hc
  have hnone : c.current.expr? = none := by
    rw [hc]
    exact congrArg (Option.map Expr.literal) hd
  have h := Goal.fails_primary (n := k) hk hnone
  rw [Cursor.position, hc] at h
  exact Goal.fails_expr (by rw [hk]; rfl) h

theorem readSource_digits_of_none (hd : IsDigits d.toList) (h : numberValue? d = none)
    (file : Option String) :
    readSource d file =
      some (.error (.located (.badNumber d) ⟨0, file.getD unnamedSource⟩)) := by
  obtain ⟨e, he, hts⟩ := tokenize_digits hd file
  rw [readSource, hts]
  refine parse_of_fails ?_
  rw [List.cons_append, Cursor.start_of_end he]
  exact Goal.fails_program (by simp [Cursor.kind, numberToken, Lexeme.token])
    (Goal.fails_item (fails_digits h rfl))

theorem readSource_minus_of_none (hd : IsDigits d.toList) (h : numberValue? d = none)
    (file : Option String) :
    readSource ("-" ++ d) file =
      some (.error (.located (.badNumber d) ⟨1, file.getD unnamedSource⟩)) := by
  obtain ⟨s, e, hs, he, hts⟩ := tokenize_minus hd file
  rw [readSource, hts]
  refine parse_of_fails ?_
  rw [List.cons_append, Cursor.start_of_end he]
  refine Goal.fails_program (by simp [Cursor.kind, hs]) (Goal.fails_item ?_)
  exact Goal.fails_expr (by rw [Cursor.kind, hs]; rfl) (Goal.fails_signed (fails_digits h rfl))

end Large

/-! ## Sources -/

section Sources

variable {d : String}

theorem numberValue?_of_le (hd : IsDigits d.toList) (h : decimalValue d.toList ≤ 2 ^ 63 - 1) :
    numberValue? d = some (.integer (.ofInt (decimalValue d.toList))) := by
  rw [hd.numberValue?, ofDigits_eq_decimalValue, if_pos (by omega)]

theorem numberValue?_of_lt (hd : IsDigits d.toList) (h : 2 ^ 63 - 1 < decimalValue d.toList) :
    numberValue? d = none := by
  rw [hd.numberValue?, ofDigits_eq_decimalValue, if_neg (by omega)]

theorem evaluates_digits (hd : IsDigits d.toList) (h : decimalValue d.toList ≤ 2 ^ 63 - 1) :
    Evaluates d (.integer (.ofInt (decimalValue d.toList))) :=
  evaluates_of_readSource (readSource_digits hd (numberValue?_of_le hd h))

theorem evaluates_minus (hd : IsDigits d.toList) (h : decimalValue d.toList ≤ 2 ^ 63 - 1) :
    Evaluates ("-" ++ d) (.integer (.ofInt (-decimalValue d.toList))) := by
  rw [Int64.ofInt_neg]
  exact evaluates_of_readSource (readSource_minus hd (numberValue?_of_le hd h))

theorem refuses_digits (hd : IsDigits d.toList) (h : 2 ^ 63 - 1 < decimalValue d.toList) :
    Refuses d d 0 :=
  refuses_of_readSource (readSource_digits_of_none hd (numberValue?_of_lt hd h))

theorem refuses_minus (hd : IsDigits d.toList) (h : 2 ^ 63 - 1 < decimalValue d.toList) :
    Refuses ("-" ++ d) d 1 :=
  refuses_of_readSource (readSource_minus_of_none hd (numberValue?_of_lt hd h))

end Sources

/-! ## Texts of integers -/

/-- The text of an integer is that of its magnitude, after a minus sign if it is negative. -/
theorem text_integer (i : Int64) :
    ∃ d : String, IsDigits d.toList ∧ decimalValue d.toList = i.toInt.natAbs ∧
      (Value.integer i).text = if i.toInt < 0 then "-" ++ d else d := by
  have hlist := String.toList_ofList (l := Nat.toDigits 10 i.toInt.natAbs)
  refine ⟨.ofList (Nat.toDigits 10 i.toInt.natAbs), ?_, ?_, ?_⟩
  · rw [hlist]
    exact isDigits_toDigits _
  · rw [hlist, ← ofDigits_eq_decimalValue]
    exact Nat.ofDigitChars_toDigits (by decide) (by decide)
  · rw [Value.text, Number.integerText, Number.integerChars]
    split
    · rw [String.ofList_cons]
      rfl
    · rfl

theorem evaluates_text {i : Int64} (h : i ≠ .minValue) :
    Evaluates (Value.integer i).text (.integer i) := by
  obtain ⟨d, hd, hvalue, htext⟩ := text_integer i
  have hne : i.toInt ≠ -2 ^ 63 := fun hi => h (Int64.toInt_inj.1 hi)
  have hle : decimalValue d.toList ≤ 2 ^ 63 - 1 := by
    have := i.le_toInt
    have := i.toInt_lt
    omega
  rw [htext]
  split
  · have hi : -(decimalValue d.toList : ℤ) = i.toInt := by omega
    have he := evaluates_minus hd hle
    rwa [hi, Int64.ofInt_toInt] at he
  · have hi : (decimalValue d.toList : ℤ) = i.toInt := by omega
    have he := evaluates_digits hd hle
    rwa [hi, Int64.ofInt_toInt] at he

theorem refuses_text_minValue :
    Refuses (Value.integer .minValue).text "9223372036854775808" 1 := by
  have htext : (Value.integer .minValue).text = "-" ++ "9223372036854775808" := by decide
  rw [htext]
  exact refuses_minus ⟨by decide, List.all_eq_true.1 rfl⟩ (by decide)

/-- **Integers as programs.** Digits below `2 ^ 63` evaluate, also after a minus sign, and all
others are refused; so only the least integer is not read back. -/
theorem integer_literals :
    (∀ d : String, IsDigits d.toList →
      (decimalValue d.toList ≤ 2 ^ 63 - 1 →
        (∃ i : Int64, i.toInt = decimalValue d.toList ∧ Evaluates d (.integer i)) ∧
        ∃ i : Int64, i.toInt = -decimalValue d.toList ∧ Evaluates ("-" ++ d) (.integer i)) ∧
      (2 ^ 63 - 1 < decimalValue d.toList → Refuses d d 0 ∧ Refuses ("-" ++ d) d 1)) ∧
    (∀ i : Int64, i ≠ .minValue → Evaluates (Value.integer i).text (.integer i)) ∧
    Refuses (Value.integer .minValue).text "9223372036854775808" 1 := by
  refine ⟨fun d hd => ⟨fun h => ⟨?_, ?_⟩, fun h => ⟨refuses_digits hd h, refuses_minus hd h⟩⟩,
    fun i => evaluates_text, refuses_text_minValue⟩
  · exact ⟨_, Int64.toInt_ofInt_of_le (by omega) (by omega), evaluates_digits hd h⟩
  · exact ⟨_, Int64.toInt_ofInt_of_le (by omega) (by omega), evaluates_minus hd h⟩

/-- The greatest magnitude, with zeros before it, and the one after it. -/
theorem integer_literals_greatest :
    IsDigits "009223372036854775807".toList ∧ IsDigits "9223372036854775808".toList ∧
      (∃ i : Int64, i.toInt = -9223372036854775807 ∧
        Evaluates ("-" ++ "009223372036854775807") (.integer i)) ∧
      Refuses "9223372036854775808" "9223372036854775808" 0 := by
  have hin : IsDigits "009223372036854775807".toList := ⟨by decide, List.all_eq_true.1 rfl⟩
  have hout : IsDigits "9223372036854775808".toList := ⟨by decide, List.all_eq_true.1 rfl⟩
  exact ⟨hin, hout, ((integer_literals.1 _ hin).1 (by decide)).2,
    ((integer_literals.1 _ hout).2 (by decide)).1⟩

/-- The magnitude of the least integer is `2 ^ 63`, which is refused after a minus sign. -/
theorem least_integer_refused :
    IsDigits "9223372036854775808".toList ∧
      decimalValue "9223372036854775808".toList = 2 ^ 63 ∧
      runSource 0 "-9223372036854775808" none false .unlimited =
        some (.error (.located (.badNumber "9223372036854775808") ⟨1, "shell"⟩), .unlimited) ∧
      ¬ Evaluates "-9223372036854775808" (.integer .minValue) := by
  have hrun := refuses_text_minValue 0 none false .unlimited
  refine ⟨⟨by decide, List.all_eq_true.1 rfl⟩, by decide, hrun, fun h => ?_⟩
  obtain ⟨sink, hok, -⟩ := h 0 none false .unlimited (.inl rfl)
  cases hok.symm.trans hrun

end ExprScript
