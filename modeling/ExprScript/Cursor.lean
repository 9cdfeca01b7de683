import ExprScript.Attempt
import ExprScript.Fault
import ExprScript.Token

/-!
# Cursors

A cursor stands on one token of a list. It only moves forward, and it stays on the last token.

* `Cursor.tokens`: the whole list; `Cursor.tokens_advance`: it never changes.
* `Cursor.start`: the cursor on the first token of a list, completed by an end token.
* `Parse`: an attempt that moves a cursor.
-/

namespace ExprScript

/-- A place in a list of tokens. -/
structure Cursor where
  /-- The tokens passed over, the latest first. -/
  before : List Token
  current : Token
  after : List Token
  deriving DecidableEq, Repr

/-- The tokens followed by an end token, unless they have one. -/
def completed (ts : List Token) (file : String) : List Token :=
  match ts.getLast? with
  | none => [.eof 0 file]
  | some t => if t.kind = .eof then ts else ts ++ [.eof t.span.stop.offset file]

namespace Cursor

/-- All tokens, in their order. -/
def tokens (c : Cursor) : List Token := c.before.reverse ++ c.current :: c.after

/-- The place of the current token in the list. -/
def index (c : Cursor) : Nat := c.before.length

/-- The kind of the current token. -/
def kind (c : Cursor) : Kind := c.current.kind

/-- The kind of the token passed over last. -/
def previous? (c : Cursor) : Option Kind := c.before.head?.map Token.kind

/-- The place in the source of the current token. -/
def position (c : Cursor) : Position := c.current.span.start

/-- The cursor on the next token, if there is one. -/
def advance (c : Cursor) : Cursor :=
  match c.after with
  | [] => c
  | t :: ts => ⟨c.current :: c.before, t, ts⟩

/-- The cursor on the first of the tokens. -/
def start (ts : List Token) (file : String) : Cursor :=
  match completed ts file with
  | [] => ⟨[], .eof 0 file, []⟩
  | t :: ts => ⟨[], t, ts⟩

@[simp]
theorem tokens_advance (c : Cursor) : c.advance.tokens = c.tokens := by
  unfold advance
  split
  · rfl
  · next h => simp [tokens, h]

theorem index_le_index_advance (c : Cursor) : c.index ≤ c.advance.index := by
  unfold advance
  split
  · exact Nat.le_refl _
  · exact Nat.le_succ _

theorem length_tokens (c : Cursor) : c.tokens.length = c.index + c.after.length + 1 := by
  simp only [tokens, index, List.length_append, List.length_reverse, List.length_cons]
  omega

theorem index_lt (c : Cursor) : c.index < c.tokens.length := by
  rw [length_tokens]
  omega

@[simp]
theorem getElem?_index (c : Cursor) : c.tokens[c.index]? = some c.current := by
  simp [tokens, index]

theorem previous?_eq (c : Cursor) :
    c.previous? = if c.index = 0 then none else c.tokens[c.index - 1]?.map Token.kind := by
  obtain ⟨before, t, after⟩ := c
  cases before with
  | nil => rfl
  | cons s before => simp [previous?, tokens, index]

theorem index_advance (c : Cursor) :
    c.advance.index = min (c.index + 1) (c.tokens.length - 1) := by
  rw [length_tokens]
  unfold advance
  split
  · next h =>
    simp only [h, List.length_nil]
    omega
  · next h =>
    simp only [index, h, List.length_cons]
    omega

theorem completed_ne_nil (ts : List Token) (file : String) : completed ts file ≠ [] := by
  unfold completed
  split
  · simp
  · next t h =>
    split
    · rintro rfl
      simp at h
    · simp

@[simp]
theorem tokens_start (ts : List Token) (file : String) :
    (start ts file).tokens = completed ts file := by
  unfold start
  split
  · next h => exact absurd h (completed_ne_nil ts file)
  · next h => simp [tokens, h]

end Cursor

/-- An attempt to read something, moving a cursor over what was read. -/
abbrev Parse := Attempt Cursor Fault

namespace Parse

/-- The current token. -/
@[inline]
def peek : Parse Token := do
  return (← Attempt.state).current

/-- The current token, moving on. -/
@[inline]
def next : Parse Token := do
  let c ← Attempt.state
  Attempt.put c.advance
  return c.current

/-- A fault at a token. -/
@[inline]
def failAt {α : Type} (t : Token) (cause : Cause) : Parse α :=
  Attempt.fail (.located cause t.span.start)

/-- The fault of a token that cannot stand where it does. -/
def unexpected {α : Type} (t : Token) : Parse α := failAt t (.unexpected t.value)

/-- The fault of a token that stands where something else should. -/
def unexpectedFor {α : Type} (t : Token) (message : String) : Parse α :=
  failAt t (.unexpectedFor t.value message)

/-- The current token, moving on, if it has the given kind; else the given fault, or the usual one,
and the cursor stays. -/
def expectOr (kind : Kind) (fault : Option Fault) : Parse Token := do
  let t ← peek
  if t.kind = kind then next
  else
    match fault with
    | some fault => Attempt.fail fault
    | none => unexpectedFor t ("expected " ++ kind.name)

/-- The current token, moving on, if it has the given kind. -/
def expect (kind : Kind) : Parse Token := expectOr kind none

@[simp]
theorem peek_apply (c : Cursor) : peek c = some (.ok c.current, c) := rfl

@[simp]
theorem next_apply (c : Cursor) : next c = some (.ok c.current, c.advance) := rfl

@[simp]
theorem peek_bind_apply {α : Type} (f : Token → Parse α) (c : Cursor) :
    (peek >>= f) c = f c.current c := rfl

@[simp]
theorem next_bind_apply {α : Type} (f : Token → Parse α) (c : Cursor) :
    (next >>= f) c = f c.current c.advance := rfl

@[simp]
theorem failAt_apply {α : Type} (t : Token) (cause : Cause) (c : Cursor) :
    (failAt t cause : Parse α) c = some (.error (.located cause t.span.start), c) := rfl

end Parse

end ExprScript
