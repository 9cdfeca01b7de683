import ExprScript.Text.Blank
import ExprScript.Token
import ExprScript.Token.Escape

/-!
# Patterns of tokens

A pattern picks the longest beginning of a text that has its form. Patterns are tried in the order
of a table, and the first one that picks anything says what is read.

* `Pattern.longest`: the text picked, empty if the text does not start with the pattern;
  `Pattern.exists_longest_append`: it is a beginning of the text.
* `Pattern.token?`: what the picked text stands for, or `none` for text that is passed over.
* `Pattern.table`, `Pattern.first?`: the order, and the pattern that it selects.
-/

namespace ExprScript

/-- The forms of text that a source is made of. -/
inductive Pattern where
  /-- A letter or underscore, then letters, digits and underscores. -/
  | word
  /-- Digits, and possibly a point with digits after it. -/
  | number
  /-- A run of blanks. -/
  | blanks
  /-- Text between double quotes, in which a backslash takes the next character with it. -/
  | quoted
  /-- Two slashes and the rest of the line. -/
  | comment
  /-- A mark with a fixed spelling. -/
  | mark (kind : Kind) (spelling : String)
  deriving DecidableEq, Repr

/-- A character that may start a word. -/
def isWordStart (c : Char) : Bool := c.isAlpha || c = '_'

/-- A character that may continue a word. -/
def isWordChar (c : Char) : Bool := c.isAlphanum || c = '_'

/-- The text up to and including the quote that closes it. A backslash may take any character but a
newline with it. -/
def untilQuote? : List Char → Option (List Char)
  | [] => none
  | '"' :: _ => some ['"']
  | ['\\'] => none
  | '\\' :: c :: cs => if c = '\n' then none else (untilQuote? cs).map fun t => '\\' :: c :: t
  | c :: cs => (untilQuote? cs).map fun t => c :: t

namespace Pattern

/-- The longest beginning of the text that has the form, empty if there is none. -/
def longest : Pattern → List Char → List Char
  | word, c :: cs => if isWordStart c then c :: cs.takeWhile isWordChar else []
  | number, cs =>
    let whole := cs.takeWhile Char.isDigit
    if whole.isEmpty then []
    else
      match cs.dropWhile Char.isDigit with
      | '.' :: after =>
        let part := after.takeWhile Char.isDigit
        if part.isEmpty then whole else whole ++ '.' :: part
      | _ => whole
  | blanks, cs => cs.takeWhile Text.isBlank
  | quoted, '"' :: cs => ((untilQuote? cs).map fun t => '"' :: t).getD []
  | comment, '/' :: '/' :: cs => '/' :: '/' :: cs.takeWhile (· ≠ '\n')
  | mark _ spelling, cs => if spelling.toList.isPrefixOf cs then spelling.toList else []
  | _, _ => []

/-- The kind and the value that the picked text stands for. -/
def token? : Pattern → List Char → Option (Kind × String)
  | word, cs => some (.ofWord (.ofList cs), .ofList cs)
  | number, cs => some (.number, .ofList cs)
  | quoted, cs => some (.string, .ofList (Escape.decode cs.tail.dropLast))
  | mark kind spelling, _ => some (kind, spelling)
  | blanks, _ => none
  | comment, _ => none

/-- The patterns in the order in which they are tried. A mark stands after every longer mark that
starts with it, and the slash after the comment. -/
def table : List Pattern :=
  [word, number, blanks, quoted, comment,
    mark .openCurly "\x7b", mark .closeCurly "\x7d", mark .openParen "(", mark .closeParen ")",
    mark .equals "==", mark .notEquals "!=", mark .not "!", mark .assignment "=",
    mark .lessEquals "<=", mark .less "<", mark .greaterEquals ">=", mark .greater ">",
    mark .or "||", mark .and "&&", mark .semicolon ";",
    mark .plus "+", mark .dash "-", mark .slash "/", mark .star "*"]

/-- The first pattern of the table that the text starts with. -/
def first? (cs : List Char) : Option Pattern :=
  table.find? fun p => !(p.longest cs).isEmpty

theorem untilQuote?_append {cs t : List Char} (h : untilQuote? cs = some t) :
    ∃ rest, t ++ rest = cs := by
  fun_induction untilQuote? cs generalizing t with
  | case1 => simp at h
  | case2 cs =>
    obtain rfl := Option.some.inj h
    exact ⟨cs, rfl⟩
  | case3 => simp at h
  | case4 => simp at h
  | case5 c cs _ ih =>
    obtain ⟨u, hu, rfl⟩ := Option.map_eq_some_iff.1 h
    obtain ⟨rest, rfl⟩ := ih hu
    exact ⟨rest, rfl⟩
  | case6 c cs _ _ _ ih =>
    obtain ⟨u, hu, rfl⟩ := Option.map_eq_some_iff.1 h
    obtain ⟨rest, rfl⟩ := ih hu
    exact ⟨rest, rfl⟩

/-- **The text picked is a beginning of the text.** -/
theorem exists_longest_append (p : Pattern) (cs : List Char) :
    ∃ rest, p.longest cs ++ rest = cs := by
  fun_cases longest p cs with
  | case1 c cs _ => exact ⟨cs.dropWhile isWordChar, by simp⟩
  | case4 | case6 => exact ⟨cs.dropWhile Char.isDigit, List.takeWhile_append_dropWhile⟩
  | case5 =>
    rename_i after _ _ _ _ h
    refine ⟨after.dropWhile Char.isDigit, ?_⟩
    rw [List.append_assoc, List.cons_append, List.takeWhile_append_dropWhile, ← h]
    exact List.takeWhile_append_dropWhile
  | case7 => exact ⟨cs.dropWhile Text.isBlank, List.takeWhile_append_dropWhile⟩
  | case8 cs =>
    cases h : untilQuote? cs with
    | none => exact ⟨'"' :: cs, rfl⟩
    | some t =>
      obtain ⟨rest, rfl⟩ := untilQuote?_append h
      exact ⟨rest, rfl⟩
  | case9 cs => exact ⟨cs.dropWhile (· ≠ '\n'), by simp⟩
  | case10 =>
    rename_i spelling h
    have h : spelling.toList <+: cs := by simpa using h
    exact h
  | case2 | case3 | case11 | case12 => exact ⟨_, rfl⟩

theorem longest_ne_nil_of_first? {cs : List Char} {p : Pattern} (h : first? cs = some p) :
    p.longest cs ≠ [] := by
  have := List.find?_some h
  simpa using this

end Pattern

end ExprScript
