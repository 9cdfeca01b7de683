/-!
# Escapes in string literals

The contents of a string literal are its characters with the escapes resolved: six short escapes,
and a code point below 256 in one or two hexadecimal digits. A backslash that starts no escape
stands for itself.

* `decode`: the contents that a spelling denotes.
-/

namespace ExprScript.Escape

/-- The character that a short escape denotes. -/
def short? : Char → Option Char
  | 'n' => some '\n'
  | 't' => some '\t'
  | '\\' => some '\\'
  | 'r' => some '\r'
  | '"' => some '"'
  | '0' => some '\x00'
  | _ => none

/-- The value of a hexadecimal digit of either case. -/
def hexDigit? (c : Char) : Option Nat :=
  if c.isDigit then some (c.toNat - '0'.toNat)
  else if 'a' ≤ c ∧ c ≤ 'f' then some (c.toNat - 'a'.toNat + 10)
  else if 'A' ≤ c ∧ c ≤ 'F' then some (c.toNat - 'A'.toNat + 10)
  else none

/-- The contents that the text between the quotes denotes. -/
def decode : List Char → List Char
  | [] => []
  | '\\' :: 'x' :: a :: b :: cs =>
    match hexDigit? a, hexDigit? b with
    | some m, some n => Char.ofNat (16 * m + n) :: decode cs
    | some m, none => Char.ofNat m :: decode (b :: cs)
    | none, _ => '\\' :: 'x' :: decode (a :: b :: cs)
  | ['\\', 'x', a] =>
    match hexDigit? a with
    | some m => [Char.ofNat m]
    | none => '\\' :: 'x' :: decode [a]
  | '\\' :: c :: cs =>
    match short? c with
    | some d => d :: decode cs
    | none => '\\' :: decode (c :: cs)
  | c :: cs => c :: decode cs

end ExprScript.Escape
