import ExprScript.Text.Extender
import ExprScript.Text.Ignorable
import ExprScript.Text.Unprintable

/-!
# Quoted text

A text between double quotes, one spelling for each character: a short escape for the quote, the
backslash, newline, carriage return, tab and NUL, the code point for a character that would not be
seen on its own, and the character itself otherwise.

* `escapes`: the spelling of one character.
* `quoted`: the quoted form of a text.
-/

namespace ExprScript.Text

/-- Characters spelt by their code point: those without a printed form, those shown as nothing, and
those that would merge with the character before them. -/
def needsCode (c : Char) : Bool :=
  isExtender c || isIgnorable c || isUnprintable c

/-- The character written after a backslash, for the characters that have a short escape. -/
def shortEscape? : Char → Option Char
  | '"' => some '"'
  | '\\' => some '\\'
  | '\n' => some 'n'
  | '\r' => some 'r'
  | '\t' => some 't'
  | '\x00' => some '0'
  | _ => none

/-- The spelling of a code point: lower case hexadecimal digits between braces. -/
def codeEscape (c : Char) : List Char :=
  ['\\', 'u', '\x7b'] ++ Nat.toDigits 16 c.toNat ++ ['\x7d']

/-- The spelling of one character inside quotes. -/
def escapes (c : Char) : List Char :=
  match shortEscape? c with
  | some d => ['\\', d]
  | none => if needsCode c then codeEscape c else [c]

/-- The text between double quotes. -/
def quotedChars (cs : List Char) : List Char :=
  '"' :: cs.flatMap escapes ++ ['"']

/-- The quoted form of `s`. -/
def quoted (s : String) : String :=
  String.ofList (quotedChars s.toList)

@[simp]
theorem toList_quoted (s : String) : (quoted s).toList = quotedChars s.toList := by
  simp [quoted]

theorem escapes_ne_nil (c : Char) : escapes c ≠ [] := by
  unfold escapes
  split
  · simp
  · split <;> simp [codeEscape]

end ExprScript.Text
