import ExprScript.Cursor
import ExprScript.Expr.Printer
import ExprScript.Grammar
import ExprScript.Number.Numeral

/-!
# Reading expressions

What is to be read next is a `Goal`. Reading looks at the current token only, asks the grammar what
the token begins or joins, and goes on to smaller goals. Every goal reads an expression.

An expression is an opening form followed by joining tokens, each of which takes the expression so
far as its left operand, as long as their power is above a bound.

* `Token.expr?`, `Parse.primary`: numbers, strings, names and truth values.
* `binary?`, `Parse.signed`: the trees of operators.
* `Parse.separator`: what stands between items.
* `Goal.read`: reading, with a budget for the depth of goals.
* `parse`: a whole program, with a budget that grows with the number of tokens.
-/

namespace ExprScript

/-- The value of a number token: a floating-point number if it has a point, else an integer. -/
def numberValue? (text : String) : Option Value :=
  let cs := text.toList
  if '.' ∈ cs then (Number.fraction? cs).map Value.float
  else (Number.integer? cs).map Value.integer

/-- The expression that the token stands for on its own. -/
def Token.expr? (t : Token) : Option Expr :=
  match t.kind with
  | .number => (numberValue? t.value).map Expr.literal
  | .identifier => some (.var t.value)
  | .string => some (.literal (.string t.value))
  | .trueWord => some (.literal (.boolean true))
  | .falseWord => some (.literal (.boolean false))
  | _ => none

/-- The tree of a binary operator, by the kind of its token. -/
def binary? : Kind → Option (Expr → Expr → Expr)
  | .plus => some (.arithmetic .add)
  | .dash => some (.arithmetic .subtract)
  | .star => some (.arithmetic .multiply)
  | .slash => some (.arithmetic .divide)
  | .and => some (.logical .and)
  | .or => some (.logical .or)
  | .less => some (.comparison .less)
  | .lessEquals => some (.comparison .lessEq)
  | .greater => some (.comparison .greater)
  | .greaterEquals => some (.comparison .greaterEq)
  | .equals => some (.comparison .equal)
  | .notEquals => some (.comparison .notEqual)
  | _ => none

namespace Parse

/-- A number, string, name or truth value. A number that cannot be read is passed over. -/
def primary : Parse Expr := do
  let t ← peek
  match t.kind with
  | .number | .identifier | .string | .trueWord | .falseWord =>
    let _ ← next
    match t.expr? with
    | some e => return e
    | none => failAt t (.badNumber t.value)
  | _ => unexpected t

/-- The tree of a sign and its operand. A minus sign has no tree of its own: it changes the number
after it. -/
def signed (sign : Token) (operand : Expr) : Parse Expr :=
  match sign.kind with
  | .not => return .not operand
  | .dash =>
    match operand with
    | .literal (.integer i) => return .literal (.integer (-i))
    | .literal (.float x) => return .literal (.float (-x))
    | other =>
      failAt sign (.unexpectedFor other.text "negation only applies to number literals")
  | _ => unexpected sign

/-- The end of an item: a separator, which is passed over, or a place where it may be left out. It
may be before a closing brace, at the end, and after a closing brace. -/
def separator : Parse Unit := do
  let c ← Attempt.state
  match c.kind with
  | .semicolon =>
    let _ ← next
    return ()
  | .closeCurly | .eof => return ()
  | _ => if c.previous? = some .closeCurly then return () else unexpected c.current

end Parse

/-- What is to be read next. -/
inductive Goal where
  /-- An expression whose joining tokens have a power above `bound`. -/
  | expr (bound : Power)
  /-- The joining tokens after `left`. -/
  | joined (left : Expr) (bound : Power)
  /-- A form that begins here. -/
  | opening (form : Opening)
  /-- A form that continues `left` here, joined by a token of this power. -/
  | joining (form : Joining) (left : Expr) (power : Power)
  /-- The items up to the closing brace, after those already read, the latest of them first. -/
  | block (items : List Expr)
  /-- The items up to the end, after those already read, the latest of them first. -/
  | program (items : List Expr)

open Parse in
/-- Read a goal from the current token on. The budget bounds the depth of goals. -/
def Goal.read (g : Grammar) : Nat → Goal → Parse Expr
  | 0, _ => Attempt.spent
  | n + 1, goal =>
    match goal with
    | expr bound => do
      let t ← peek
      match g.opening? t.kind with
      | none => unexpectedFor t "expected expression"
      | some form =>
        let left ← read g n (opening form)
        read g n (joined left bound)
    | joined left bound => do
      let t ← peek
      match g.joining? t.kind with
      | none => return left
      | some (power, form) =>
        if bound < power then
          let left ← read g n (joining form left power)
          read g n (joined left bound)
        else return left
    | opening .primary => primary
    | opening .signed => do
      let sign ← next
      let operand ← read g n (expr .unary)
      signed sign operand
    | opening .group => do
      let _ ← next
      if (← peek).kind = .closeParen then
        let _ ← next
        return .unit
      else
        let e ← read g n (expr .lowest)
        let _ ← expect .closeParen
        return e
    | opening .print => do
      let _ ← next
      let _ ← expect .openParen
      let e ← read g n (expr .lowest)
      let _ ← expect .closeParen
      return .print e
    | opening .block => do
      let _ ← expect .openCurly
      read g n (block [])
    | opening .branch => do
      let _ ← next
      let condition ← read g n (expr .lowest)
      let yes ← read g n (opening .block)
      if (← peek).kind = .elseWord then
        let _ ← next
        let form := if (← peek).kind = .ifWord then .branch else .block
        let no ← read g n (opening form)
        return .branch condition yes no
      else return .branch condition yes .unit
    | opening .loop => do
      let _ ← next
      let condition ← read g n (expr .lowest)
      let body ← read g n (opening .block)
      return .loop condition body
    | opening .item => do
      let e ← read g n (expr .lowest)
      separator
      return e
    | joining .binary left power => do
      let op ← next
      let right ← read g n (expr power)
      match binary? op.kind with
      | some tree => return tree left right
      | none => unexpected op
    | joining .assignment left _ => do
      let op ← next
      match left with
      | .var x =>
        let value ← read g n (expr .lowest)
        return .assign x value
      | other => failAt op (.badTarget other.text)
    | block items => do
      let t ← peek
      if t.kind = .closeCurly then
        let _ ← next
        return .sequence items.reverse
      else if t.kind = .eof then unexpectedFor t "expected \x7d to close block"
      else
        let item ← read g n (opening .item)
        read g n (block (item :: items))
    | program items => do
      if (← peek).kind = .eof then return .program items.reverse
      else
        let item ← read g n (opening .item)
        read g n (program (item :: items))

/-- A budget for reading from a cursor on. At most four goals stand between two tokens. -/
def Cursor.budget (c : Cursor) : Nat := 8 * (c.after.length + 2)

/-- The program that the tokens spell. -/
def parse (tokens : List Token) (file : String) : Option (Except Fault Expr) :=
  let c := Cursor.start tokens file
  (Goal.read .standard c.budget (.program []) c).map Prod.fst

end ExprScript
