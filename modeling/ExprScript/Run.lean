import ExprScript.Eval
import ExprScript.Goal
import ExprScript.Token.Scan

/-!
# Running programs

A program is run from the empty environment, on a machine without bindings. On request, what was run
and what came of it is written to the sink after a run that succeeds.

* `Finish`: what a run that succeeds leaves behind.
* `run`: run a tree; `readSource`: the tree of a source; `runSource`: run a source.
-/

namespace ExprScript

/-- What a run that succeeds leaves behind. -/
structure Finish where
  value : Value
  env : Env
  arena : Arena
  deriving DecidableEq

/-- The final environment written out. -/
def Finish.render (f : Finish) : String := f.arena.render f.env

/-- Write the program, its value and the final environment, and flush. -/
def dump (program : Expr) (f : Finish) : Action Unit := do
  Action.writeLine ("program: " ++ program.text)
  Action.writeLine ("final_value: (" ++ f.value.text ++ ", " ++ f.value.tag.name ++ ")")
  Action.writeLine ("final_state: " ++ f.render)
  Action.flush

/-- Evaluate a program and, if asked, write out how it went. -/
def runAction (rounds : Nat) (program : Expr) (debug : Bool) : Action Finish := do
  let r ← program.eval rounds none
  let m ← Attempt.state
  let finish : Finish := ⟨r.value, r.env, m.arena⟩
  if debug then dump program finish
  return finish

/-- Run a program: how it ended, and the sink after it. -/
def run (rounds : Nat) (program : Expr) (debug : Bool) (sink : Sink) :
    Option (Except Fault Finish × Sink) :=
  (runAction rounds program debug (.fresh sink)).map fun
    | (.ok f, m) => (.ok f, m.sink)
    | (.error cause, m) => (.error (.unlocated cause), m.sink)

/-- The tree of a source. -/
def readSource (source : String) (file : Option String) : Option (Except Fault Expr) :=
  match tokenize source file with
  | .ok tokens => parse tokens (file.getD unnamedSource)
  | .error fault => some (.error fault)

/-- Run a source: how it ended, and the sink after it. -/
def runSource (rounds : Nat) (source : String) (file : Option String) (debug : Bool) (sink : Sink) :
    Option (Except Fault Finish × Sink) :=
  (readSource source file).bind fun
    | .ok program => run rounds program debug sink
    | .error fault => some (.error fault, sink)

end ExprScript
