import ExprScript.Fault
import ExprScript.Text.Blank
import ExprScript.Text.Line

/-!
# Reports

A report shows a fault to the author of the source: its name and tip, and either its message or the
line it arose in, with a caret below.

* `Fault.headline`: the first line of every report.
* `Fault.report`: the whole text. The caret stands as many bytes from the start of the shown line as
  the fault stands in the source.
-/

namespace ExprScript

open Text

/-- Blanks that indent a line. -/
def isIndent (c : Char) : Bool := c = ' ' || c = '\t'

/-- `s` at the right end of a field of `n` characters, filled up with `c`. -/
def alignRight (n : Nat) (c : Char) (s : String) : String :=
  String.ofList (List.replicate (n - s.length) c) ++ s

/-- The shown line, its number before it, between two margins; the lower one carries the caret. -/
def showLine (line : Line) : String :=
  let number := Nat.repr line.number
  let margin := alignRight (number.length + 2) ' ' "|"
  let indent := line.text.takeWhile isIndent
  let body := line.text.dropWhile isIndent
  let caret := alignRight (line.offset - width indent + 1) '-' "^"
  margin ++ "\n" ++ number ++ " | " ++ String.ofList (trimEnd body) ++ "\n" ++ margin ++ " " ++
    caret ++ "\n"

namespace Fault

/-- The name of the fault and the tip in parentheses, if there is one. -/
def headline (fault : Fault) : String :=
  match fault.cause.tip with
  | none => "Error: " ++ fault.cause.name
  | some tip => "Error: " ++ fault.cause.name ++ " (" ++ tip ++ ")"

/-- What is shown of the place of a fault. A place beyond the end of the source is only named. -/
def placeText (position : Position) (source : String) : String :=
  "-> " ++ position.file ++ "\n" ++
    match Line.at? source.toList position.offset.toNat with
    | none => ""
    | some line => showLine line

/-- The report of a fault in `source`. -/
def report (fault : Fault) (source : String) : String :=
  fault.headline ++ "\n" ++
    match fault.position with
    | none => fault.cause.message ++ "\n"
    | some position => placeText position source

end Fault

end ExprScript
