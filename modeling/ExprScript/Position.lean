/-!
# Places in a source text

A place is a byte offset in a named source. Offsets are words of 32 bits.
-/

namespace ExprScript

/-- A byte offset in the source called `file`. -/
structure Position where
  offset : UInt32
  file : String
  deriving DecidableEq, Repr

/-- The bytes from `start` up to, and not including, `stop`. -/
structure Span where
  start : Position
  stop : Position
  deriving DecidableEq, Repr

/-- The name of a source that has none of its own. -/
def unnamedSource : String := "shell"

/-- The place at offset `n`, which is kept modulo `2 ^ 32`. -/
def Position.ofNat (n : Nat) (file : String) : Position := ⟨UInt32.ofNat n, file⟩

/-- The span from offset `m` to offset `n`. -/
def Span.ofNat (m n : Nat) (file : String) : Span := ⟨.ofNat m file, .ofNat n file⟩

end ExprScript
