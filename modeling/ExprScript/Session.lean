import ExprScript.Run

/-!
# Sessions

A session evaluates one program after another on one machine. Every evaluation, failed ones
included, leaves an environment that later ones may start from.

* `Session.start`: a session with nothing but the empty environment.
* `Session.submit`, `Session.submitSource`: evaluate a tree or a source in some environment.
-/

namespace ExprScript

/-- A machine and the environments that evaluations on it may start from. -/
structure Session where
  machine : Machine
  /-- The empty environment, then one for each evaluation. -/
  envs : Array Env

namespace Session

/-- A session in which nothing has been evaluated. -/
def start (sink : Sink) : Session := ⟨.fresh sink, #[none]⟩

/-- The environment that the latest evaluation left. -/
def latest (s : Session) : Env := s.envs.back?.getD none

/-- Evaluate a tree in the environment `env`. A failed evaluation leaves `env`. -/
def submit (rounds : Nat) (s : Session) (env : Env) (program : Expr) :
    Option (Except Fault Value × Session) :=
  (program.eval rounds env s.machine).map fun
    | (.ok r, m) => (.ok r.value, ⟨m, s.envs.push r.env⟩)
    | (.error cause, m) => (.error (.unlocated cause), ⟨m, s.envs.push env⟩)

/-- Evaluate a source in the environment `env`. -/
def submitSource (rounds : Nat) (s : Session) (env : Env) (source : String) :
    Option (Except Fault Value × Session) :=
  (readSource source none).bind fun
    | .ok program => s.submit rounds env program
    | .error fault => some (.error fault, { s with envs := s.envs.push env })

end Session

end ExprScript
