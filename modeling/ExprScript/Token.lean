import ExprScript.Position

/-!
# Tokens

A token is a kind, the text it stands for and the bytes of the source it was read from. The text of
a string token is its contents, so it need not be the text of those bytes.
-/

namespace ExprScript

/-- The kinds of token. -/
inductive Kind where
  /-- The end of the source. -/
  | eof
  | number
  | string
  | identifier
  | openCurly
  | closeCurly
  | openParen
  | closeParen
  | assignment
  | equals
  | not
  | notEquals
  | less
  | lessEquals
  | greater
  | greaterEquals
  | or
  | and
  | semicolon
  | plus
  | dash
  | slash
  | star
  | ifWord
  | elseWord
  | whileWord
  | printWord
  | trueWord
  | falseWord
  deriving DecidableEq, Repr

/-- The name of a kind in messages. -/
def Kind.name : Kind → String
  | .eof => "EOF"
  | .number => "Number"
  | .string => "String"
  | .identifier => "Identifier"
  | .openCurly => "OpenCurly"
  | .closeCurly => "CloseCurly"
  | .openParen => "OpenParen"
  | .closeParen => "CloseParen"
  | .assignment => "Assignment"
  | .equals => "Equals"
  | .not => "Not"
  | .notEquals => "NotEquals"
  | .less => "Less"
  | .lessEquals => "LessEquals"
  | .greater => "Greater"
  | .greaterEquals => "GreaterEquals"
  | .or => "Or"
  | .and => "And"
  | .semicolon => "Semicolon"
  | .plus => "Plus"
  | .dash => "Dash"
  | .slash => "Slash"
  | .star => "Star"
  | .ifWord => "If"
  | .elseWord => "Else"
  | .whileWord => "While"
  | .printWord => "Print"
  | .trueWord => "True"
  | .falseWord => "False"

/-- The kind of a word of the source: a reserved word has its own, every other word is a name. -/
def Kind.ofWord : String → Kind
  | "if" => .ifWord
  | "else" => .elseWord
  | "while" => .whileWord
  | "print" => .printWord
  | "true" => .trueWord
  | "false" => .falseWord
  | _ => .identifier

/-- A token of a source. -/
structure Token where
  kind : Kind
  value : String
  span : Span
  deriving DecidableEq, Repr

namespace Token

/-- The token that ends a source, at offset `n`. -/
def eof (n : UInt32) (file : String) : Token :=
  ⟨.eof, "EOF", ⟨⟨n, file⟩, ⟨n, file⟩⟩⟩

/-- A token written out. -/
def text (t : Token) : String :=
  "Token \x7b\nkind: " ++ t.kind.name ++ ",\nvalue: " ++ t.value ++ "\x7d"

end Token

end ExprScript
