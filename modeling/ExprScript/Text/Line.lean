import ExprScript.Text.Utf8

/-!
# Lines of a text

A line includes the newline that ends it, and the last line has none. So every text has at least one
line, and a text that ends in a newline has an empty last line.

* `lines`: the lines of a text; `flatten_lines`: together they are the text.
* `Line.at?`: the line that holds a byte offset. The offset just past the text belongs to the last
  line.
-/

namespace ExprScript.Text

/-- The lines of a text. -/
def lines : List Char → List (List Char)
  | [] => [[]]
  | c :: cs =>
    if c = '\n' then [c] :: lines cs
    else
      match lines cs with
      | [] => [[c]]
      | l :: ls => (c :: l) :: ls

theorem lines_ne_nil (cs : List Char) : lines cs ≠ [] := by
  cases cs with
  | nil => simp [lines]
  | cons c cs =>
    rw [lines]
    split
    · simp
    · split <;> simp

theorem flatten_lines (cs : List Char) : (lines cs).flatten = cs := by
  induction cs with
  | nil => rfl
  | cons c cs ih =>
    rw [lines]
    split
    · simp [ih]
    · split
      · next h => exact absurd h (lines_ne_nil cs)
      · next l ls h => rw [h] at ih; simpa using ih

/-- A line of a text and an offset in it. -/
structure Line where
  /-- Lines are numbered from one. -/
  number : Nat
  text : List Char
  /-- In bytes from the start of the line. -/
  offset : Nat
  deriving DecidableEq, Repr

/-- The line that holds the offset `n`, when the lines are numbered from `number`. -/
def Line.locate (number n : Nat) : List (List Char) → Line
  | [] => ⟨number, [], n⟩
  | [l] => ⟨number, l, n⟩
  | l :: ls => if n < width l then ⟨number, l, n⟩ else locate (number + 1) (n - width l) ls

/-- The line of `cs` that holds the byte offset `n`, if `n` is not beyond the end. -/
def Line.at? (cs : List Char) (n : Nat) : Option Line :=
  if width cs < n then none else some (locate 1 n (lines cs))

theorem Line.at?_eq_none_iff (cs : List Char) (n : Nat) : Line.at? cs n = none ↔ width cs < n := by
  simp [Line.at?]

end ExprScript.Text
