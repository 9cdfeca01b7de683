import ExprScript.Expr
import ExprScript.Text.Quoted

/-!
# The text of a tree

Every node is written as its name and, in parentheses, its parts. Strings are quoted, so that the
text of a literal never runs into what follows it.

* `Expr.text`: the text of a tree.
* `Expr.textAll`: the texts of a list of trees, with commas between them.
-/

namespace ExprScript

/-- The text of a literal: its tag around its value, a string in quotes, and the bare tag for the
unit value. -/
def Value.literalText : Value → String
  | .unit => "Unit"
  | .string s => "String(" ++ Text.quoted s ++ ")"
  | v => v.tag.name ++ "(" ++ v.text ++ ")"

namespace Expr

mutual

/-- The text of a tree. -/
def text : Expr → String
  | literal v => v.literalText
  | var x => "Variable(" ++ x ++ ")"
  | assign x e => "Assign(" ++ x ++ ", " ++ e.text ++ ")"
  | arithmetic op l r => op.name ++ "(" ++ l.text ++ ", " ++ r.text ++ ")"
  | logical op l r => op.name ++ "(" ++ l.text ++ ", " ++ r.text ++ ")"
  | not e => "Not(" ++ e.text ++ ")"
  | comparison op l r => op.name ++ "(" ++ l.text ++ ", " ++ r.text ++ ")"
  | branch c y n => "If(" ++ c.text ++ ", " ++ y.text ++ ", " ++ n.text ++ ")"
  | loop c b => "While(" ++ c.text ++ ", " ++ b.text ++ ")"
  | sequence es => "Sequence(" ++ textAll es ++ ")"
  | program es => "Program(" ++ textAll es ++ ")"
  | print e => "Print(" ++ e.text ++ ")"

/-- The texts of a list of trees, with commas between them. -/
def textAll : List Expr → String
  | [] => ""
  | [e] => e.text
  | e :: es => e.text ++ ", " ++ textAll es

end

end Expr

end ExprScript
