import ExprScript.Goal

/-!
# Parsers

A parser is a cursor with a grammar that can be changed between readings. It is used by requests,
each of which has a reply and leaves a parser for the next one, also after a fault.

* `Parser.start`: a parser on some tokens, with a grammar.
* `Request`, `Reply`: what is asked and answered.
* `Parser.perform`: the reply to a request and the parser after it.
-/

namespace ExprScript

/-- A cursor and the grammar it is read with. -/
structure Parser where
  grammar : Grammar
  cursor : Cursor

/-- What a parser can be asked. -/
inductive Request where
  /-- The current token. -/
  | current
  /-- The current token, moving on. -/
  | advance
  /-- The current token, moving on, if it has this kind, else a fault. -/
  | expect (kind : Kind) (fault : Option Fault)
  | hasOpening (kind : Kind)
  | hasJoining (kind : Kind)
  | setOpening (kind : Kind) (form : Opening)
  | setJoining (kind : Kind) (power : Power) (form : Joining)
  /-- The expression that satisfies a goal. -/
  | read (goal : Goal)

/-- What a parser answers. -/
inductive Reply where
  | token (t : Token)
  | flag (b : Bool)
  | done
  | tree (e : Expr)
  | fault (f : Fault)

namespace Parser

/-- The parser on the first of the tokens. -/
def start (grammar : Grammar) (tokens : List Token) (file : String) : Parser :=
  ⟨grammar, .start tokens file⟩

/-- The reply that an attempt ends with, and the parser where its cursor stopped. -/
def attempt {α : Type} (p : Parser) (x : Parse α) (reply : α → Reply) : Option (Reply × Parser) :=
  (x p.cursor).map fun
    | (.ok a, c) => (reply a, { p with cursor := c })
    | (.error f, c) => (.fault f, { p with cursor := c })

/-- The reply to a request and the parser after it. -/
def perform (p : Parser) : Request → Option (Reply × Parser)
  | .current => some (.token p.cursor.current, p)
  | .advance => some (.token p.cursor.current, { p with cursor := p.cursor.advance })
  | .expect kind fault => p.attempt (Parse.expectOr kind fault) .token
  | .hasOpening kind => some (.flag (p.grammar.opening? kind).isSome, p)
  | .hasJoining kind => some (.flag (p.grammar.joining? kind).isSome, p)
  | .setOpening kind form => some (.done, { p with grammar := p.grammar.setOpening kind form })
  | .setJoining kind power form =>
    some (.done, { p with grammar := p.grammar.setJoining kind power form })
  | .read goal => p.attempt (goal.read p.grammar p.cursor.budget) .tree

/-- The power of the current token. -/
def power (p : Parser) : Power := p.grammar.power p.cursor.kind

/-- There are tokens before the end. -/
def hasTokens (p : Parser) : Bool := p.cursor.kind ≠ .eof

end Parser

end ExprScript
