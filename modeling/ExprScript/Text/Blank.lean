import ExprScript.Text.Ranges

/-!
# Blank characters

The characters with the Unicode property `White_Space`. Blanks separate tokens, and a report drops
them from the end of the line it shows.

* `isBlank`: the property.
* `isBlank_of_isWhitespace`: it contains the whitespace of ASCII.
* `trimEnd`: a text without the blanks at its end.
-/

namespace ExprScript.Text

/-- The ranges of `White_Space`. -/
def blanks : Ranges :=
  [(0x9, 0xd), (0x20, 0x20), (0x85, 0x85), (0xa0, 0xa0), (0x1680, 0x1680), (0x2000, 0x200a),
    (0x2028, 0x2029), (0x202f, 0x202f), (0x205f, 0x205f), (0x3000, 0x3000)]

/-- `c` is a blank. -/
def isBlank (c : Char) : Bool := blanks.holds c

theorem isBlank_of_isWhitespace {c : Char} (h : c.isWhitespace = true) : isBlank c = true := by
  simp only [Char.isWhitespace, Bool.or_eq_true, decide_eq_true_eq, or_assoc] at h
  rcases h with rfl | rfl | rfl | rfl <;> decide

/-- The text without the blanks at its end. -/
def trimEnd (cs : List Char) : List Char :=
  (cs.reverse.dropWhile isBlank).reverse

end ExprScript.Text
