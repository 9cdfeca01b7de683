import ExprScript.Position
import ExprScript.Text.Utf8

/-!
# Readers

A reader stands at a byte offset of a source and sees the text from there on.

* `Reader.advance`: the reader some bytes further on; `Reader.span`: the bytes it would pass over.
-/

namespace ExprScript

/-- A place in a source and the text after it. -/
structure Reader where
  file : String
  /-- The number of bytes before the reader. -/
  offset : Nat
  rest : List Char

namespace Reader

/-- The reader at the start of a source. -/
def start (source : String) (file : String) : Reader := ⟨file, 0, source.toList⟩

/-- The reader `n` bytes further on. -/
def advance (r : Reader) (n : Nat) : Reader :=
  { r with offset := r.offset + n, rest := Text.dropBytes n r.rest }

/-- The span of the next `n` bytes. -/
def span (r : Reader) (n : Nat) : Span := .ofNat r.offset (r.offset + n) r.file

/-- The place of the reader. -/
def position (r : Reader) : Position := .ofNat r.offset r.file

/-- The next character, NUL at the end. -/
def current (r : Reader) : Char := r.rest.headD '\x00'

/-- The reader has passed over the whole source. -/
def atEnd (r : Reader) : Bool := r.rest.isEmpty

theorem length_rest_advance {r : Reader} {n : Nat} (hn : 0 < n) (hr : r.rest ≠ []) :
    (r.advance n).rest.length < r.rest.length :=
  Text.length_dropBytes_lt hn hr

end Reader

end ExprScript
