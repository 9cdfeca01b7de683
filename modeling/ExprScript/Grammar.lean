import ExprScript.Token

/-!
# Grammars

What a token may begin, and what it may join to an expression before it, is looked up in a grammar.
Joining tokens have a power, and a tighter one binds first.

* `Power`: the powers, in increasing order.
* `Opening`, `Joining`: the forms that a token may begin or continue.
* `Grammar`: the two tables; `Grammar.standard`: those of the language.
-/

namespace ExprScript

/-- How tightly a token binds, from the loosest to the tightest. -/
inductive Power where
  /-- That of a token which joins nothing. -/
  | lowest
  | assignment
  | logicalOr
  | logicalAnd
  | relational
  | additive
  | multiplicative
  | unary
  | primary
  deriving DecidableEq, Repr

/-- The place of a power in their order. -/
def Power.rank : Power → Nat
  | .lowest => 0
  | .assignment => 1
  | .logicalOr => 2
  | .logicalAnd => 3
  | .relational => 4
  | .additive => 5
  | .multiplicative => 6
  | .unary => 7
  | .primary => 8

instance : LT Power := ⟨fun p q => p.rank < q.rank⟩

instance (p q : Power) : Decidable (p < q) := inferInstanceAs (Decidable (p.rank < q.rank))

theorem Power.lt_iff {p q : Power} : p < q ↔ p.rank < q.rank := Iff.rfl

theorem Power.not_lt_lowest (p : Power) : ¬ p < .lowest := Nat.not_lt_zero _

/-- A form that begins with the current token. -/
inductive Opening where
  /-- A number, string, name or truth value. -/
  | primary
  /-- A sign before an operand. -/
  | signed
  /-- An expression in parentheses, or the unit literal. -/
  | group
  | print
  /-- Items in curly braces. -/
  | block
  | branch
  | loop
  /-- An expression with the separator after it. -/
  | item
  deriving DecidableEq, Repr

/-- A form that continues an expression with the current token. -/
inductive Joining where
  | binary
  | assignment
  deriving DecidableEq, Repr

/-- What each kind of token begins and joins. -/
structure Grammar where
  opening? : Kind → Option Opening
  joining? : Kind → Option (Power × Joining)

namespace Grammar

/-- The grammar in which no token begins or joins anything. -/
def empty : Grammar := ⟨fun _ => none, fun _ => none⟩

/-- The grammar in which `kind` begins the form `form`, and all else is as before. -/
def setOpening (g : Grammar) (kind : Kind) (form : Opening) : Grammar :=
  { g with opening? := fun k => if k = kind then some form else g.opening? k }

/-- The grammar in which `kind` joins with the form `form` and the given power, and all else is as
before. -/
def setJoining (g : Grammar) (kind : Kind) (power : Power) (form : Joining) : Grammar :=
  { g with joining? := fun k => if k = kind then some (power, form) else g.joining? k }

/-- The power of a kind of token. -/
def power (g : Grammar) (kind : Kind) : Power :=
  match g.joining? kind with
  | some (power, _) => power
  | none => .lowest

/-- The grammar of the language. -/
def standard : Grammar where
  opening?
    | .number | .identifier | .string | .trueWord | .falseWord => some .primary
    | .dash | .not => some .signed
    | .openParen => some .group
    | .printWord => some .print
    | .openCurly => some .block
    | .ifWord => some .branch
    | .whileWord => some .loop
    | _ => none
  joining?
    | .assignment => some (.assignment, .assignment)
    | .or => some (.logicalOr, .binary)
    | .and => some (.logicalAnd, .binary)
    | .less | .lessEquals | .greater | .greaterEquals | .equals | .notEquals =>
      some (.relational, .binary)
    | .plus | .dash => some (.additive, .binary)
    | .star | .slash => some (.multiplicative, .binary)
    | _ => none

end Grammar

end ExprScript
