import ExprScript.Value

/-!
# Environments

Bindings are records in an arena that only grows. A record points to the one it shadows, so the
index of a record stands for a whole environment: the chain from it back to the empty one. Extending
an environment adds a record and leaves every environment as it was.

* `Arena.extend`: a new binding in front of an environment.
* `Arena.chain`: the bindings of an environment, innermost first.
* `Arena.lookup`: the innermost binding of a name; `Arena.lookup_eq_find?`: the first of the chain.
* `Arena.render`: an environment written out.
-/

namespace ExprScript

/-- An environment: the index of its innermost binding, or `none` if it has no bindings. -/
abbrev Env := Option Nat

/-- A name, its value, and the environment in which the value was bound. -/
structure Binding where
  name : String
  value : Value
  parent : Env
  deriving DecidableEq

/-- A binding written out, with the tag of its value. -/
def Binding.text (b : Binding) : String :=
  b.name ++ ": (" ++ b.value.text ++ ", " ++ b.value.tag.name ++ ")"

/-- The bindings made so far, in the order in which they were made. -/
structure Arena where
  records : Array Binding
  deriving DecidableEq

/-- A bound on the number of bindings of an environment whose records point to earlier ones. -/
def Env.bound : Env → Nat
  | none => 0
  | some i => i + 1

namespace Arena

/-- The arena without bindings. -/
def empty : Arena := ⟨#[]⟩

/-- The number of bindings made. -/
def size (a : Arena) : Nat := a.records.size

/-- The environment `env` with one more binding, and the arena that holds it. -/
def extend (a : Arena) (env : Env) (name : String) (value : Value) : Env × Arena :=
  (some a.size, ⟨a.records.push ⟨name, value, env⟩⟩)

/-- The first `n` bindings of an environment, innermost first. -/
def walk (a : Arena) : Nat → Env → List Binding
  | 0, _ => []
  | _ + 1, none => []
  | n + 1, some i =>
    match a.records[i]? with
    | some b => b :: a.walk n b.parent
    | none => []

/-- The bindings of an environment, innermost first. -/
def chain (a : Arena) (env : Env) : List Binding := a.walk (Env.bound env) env

/-- The innermost binding of `name` among the first `n` of an environment. -/
def seek (a : Arena) (name : String) : Nat → Env → Option Binding
  | 0, _ => none
  | _ + 1, none => none
  | n + 1, some i =>
    match a.records[i]? with
    | some b => if b.name = name then some b else a.seek name n b.parent
    | none => none

/-- The innermost binding of `name` in an environment. -/
def lookup (a : Arena) (env : Env) (name : String) : Option Binding :=
  a.seek name (Env.bound env) env

/-- The number of bindings of an environment, shadowed ones included. -/
def depth (a : Arena) (env : Env) : Nat := (a.chain env).length

/-- The bindings of an environment written out, innermost first. -/
def render (a : Arena) (env : Env) : String :=
  ", ".intercalate ((a.chain env).map Binding.text)

theorem seek_eq_find? (a : Arena) (name : String) (n : Nat) (env : Env) :
    a.seek name n env = (a.walk n env).find? (·.name = name) := by
  induction n generalizing env with
  | zero => rfl
  | succ n ih =>
    cases env with
    | none => rfl
    | some i =>
      rw [seek, walk]
      split
      · next b _ => by_cases h : b.name = name <;> simp [h, ih]
      · rfl

theorem lookup_eq_find? (a : Arena) (env : Env) (name : String) :
    a.lookup env name = (a.chain env).find? (·.name = name) :=
  seek_eq_find? a name _ env

end Arena

end ExprScript
