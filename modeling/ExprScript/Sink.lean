/-!
# Sinks

Output goes to a sink, which keeps the bytes written to it up to a limit. Writing beyond the limit
fails, and the bytes before it are kept all the same.

* `Sink.write`, `Sink.flush`: what is left in the sink, and whether it failed.
-/

namespace ExprScript

/-- Where output goes. -/
structure Sink where
  /-- The bytes written so far. -/
  kept : ByteArray
  /-- The number of bytes it has room for, `none` if there is no limit. -/
  limit : Option Nat
  /-- Flushing fails. -/
  flushFails : Bool
  /-- What it says when it fails. -/
  message : String

namespace Sink

instance : DecidableEq Sink := fun s t =>
  decidable_of_iff (s.kept.data = t.kept.data ∧ s.limit = t.limit ∧ s.flushFails = t.flushFails ∧
    s.message = t.message) (by cases s; cases t; simp [ByteArray.ext_iff])

/-- A sink that never fails. -/
def unlimited : Sink := ⟨.empty, none, false, ""⟩

/-- The number of bytes of a text of `n` bytes that still fit. -/
def room (s : Sink) (n : Nat) : Nat :=
  match s.limit with
  | none => n
  | some limit => min n (limit - s.kept.size)

/-- Write a text: all of it, or as much as fits and a failure. -/
def write (s : Sink) (text : String) : Except String Unit × Sink :=
  let bytes := text.toUTF8
  let fits := s.room bytes.size
  if fits = bytes.size then (.ok (), { s with kept := s.kept ++ bytes })
  else (.error s.message, { s with kept := s.kept ++ bytes.extract 0 fits })

/-- Hand the bytes on. -/
def flush (s : Sink) : Except String Unit × Sink :=
  (if s.flushFails then .error s.message else .ok (), s)

theorem write_unlimited {s : Sink} (h : s.limit = none) (text : String) :
    s.write text = (.ok (), { s with kept := s.kept ++ text.toUTF8 }) := by
  simp [write, room, h]

end Sink

end ExprScript
