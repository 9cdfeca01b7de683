import ExprScript.Arena
import ExprScript.Proofs.Operation
import ExprScript.Sink
import Mathlib.Data.Finmap

/-!
# Big steps over finite maps

What a program means, with no arena: names have values in a finite map, and evaluation relates a map
and a sink to an outcome and the sink after it. Parts are evaluated from left to right, each in the
map that the part before it gave, and the first fault is the fault of the whole.

* `Store`, `Arena.store`: finite maps, and the map that an environment stands for;
  `Arena.lookup_store`: it sends a name to the value of its innermost binding.
* `Sink.Takes`: what becomes of bytes that are written; `Sink.takes_iff`.
* `Task`: an expression, the rest of a sequence or the rest of a loop.
* `BigStep`: the rules.
-/

namespace ExprScript

/-- The values of the names in sight. -/
abbrev Store := Finmap fun _ : String => Value

/-- The map of a list of bindings. An earlier binding hides a later one of its name. -/
def Store.ofBindings (bs : List Binding) : Store :=
  bs.foldr (fun b σ => σ.insert b.name b.value) ∅

/-- The map that an environment stands for. -/
def Arena.store (a : Arena) (env : Env) : Store := .ofBindings (a.chain env)

theorem Store.lookup_ofBindings (bs : List Binding) (x : String) :
    (ofBindings bs).lookup x = (bs.find? (·.name = x)).map Binding.value := by
  induction bs with
  | nil => simp [ofBindings]
  | cons b bs ih =>
    rw [ofBindings, List.foldr_cons, ← ofBindings]
    by_cases h : b.name = x
    · subst h
      simp
    · rw [Finmap.lookup_insert_of_ne _ (Ne.symm h), ih]
      simp [h]

/-- **A name has the value of its innermost binding.** -/
theorem Arena.lookup_store (a : Arena) (env : Env) (x : String) :
    (a.store env).lookup x = (a.lookup env x).map Binding.value := by
  rw [store, Store.lookup_ofBindings, lookup_eq_find?]

/-- Bytes that are written to a sink are kept if there is room for them. Otherwise as many are kept
as there is room for, and the sink says its message. -/
inductive Sink.Takes (k : Sink) (bytes : ByteArray) : Except String Unit → Sink → Prop
  | whole (h : ∀ limit, k.limit = some limit → bytes.size ≤ limit - k.kept.size) :
      Takes k bytes (.ok ()) { k with kept := k.kept ++ bytes }
  | cut {limit : Nat} (hl : k.limit = some limit) (h : limit - k.kept.size < bytes.size) :
      Takes k bytes (.error k.message)
        { k with kept := k.kept ++ bytes.extract 0 (limit - k.kept.size) }

theorem Sink.takes_write (k : Sink) (text : String) :
    k.Takes text.toUTF8 (k.write text).1 (k.write text).2 := by
  rw [write]
  split
  · next h =>
    refine .whole fun limit hl => ?_
    simp only [room, hl] at h
    omega
  · next h =>
    obtain ⟨limit, hl⟩ : ∃ limit, k.limit = some limit :=
      Option.ne_none_iff_exists'.1 fun hl => h (by simp only [room, hl])
    simp only [room, hl] at h
    have hroom : k.room text.toUTF8.size = limit - k.kept.size := by
      simp only [room, hl]
      omega
    dsimp only
    rw [hroom]
    exact .cut hl (by omega)

theorem Sink.Takes.unique {k k₁ k₂ : Sink} {bytes : ByteArray} {r₁ r₂ : Except String Unit}
    (h₁ : k.Takes bytes r₁ k₁) (h₂ : k.Takes bytes r₂ k₂) : (r₁, k₁) = (r₂, k₂) := by
  cases h₁ with
  | whole h =>
    cases h₂ with
    | whole => rfl
    | cut hl hlt => exact absurd (h _ hl) (Nat.not_le.2 hlt)
  | cut hl hlt =>
    cases h₂ with
    | whole h => exact absurd (h _ hl) (Nat.not_le.2 hlt)
    | cut hl' => cases hl.symm.trans hl'; rfl

/-- **Writing a text does what becomes of its bytes.** -/
theorem Sink.takes_iff {k k' : Sink} {text : String} {r : Except String Unit} :
    k.Takes text.toUTF8 r k' ↔ k.write text = (r, k') :=
  ⟨fun h => (k.takes_write text).unique h, fun h => by simpa [h] using k.takes_write text⟩

/-- What is to be evaluated. -/
inductive Task where
  | expr (e : Expr)
  /-- The rest of a sequence; `last` is the value of the item before it. -/
  | items (es : List Expr) (last : Value)
  /-- The rest of a loop; `last` is the value of the round before it. -/
  | rounds (condition body : Expr) (last : Value)

/-- A value and the map after it, or what went wrong. -/
abbrev Outcome := Except Cause (Value × Store)

/-- `BigStep t σ k o k'`: the task `t`, in the map `σ` and with the sink `k`, has the outcome `o`
and leaves the sink `k'`. -/
inductive BigStep : Task → Store → Sink → Outcome → Sink → Prop
  | literal (v : Value) (σ : Store) (k : Sink) : BigStep (.expr (.literal v)) σ k (.ok (v, σ)) k
  | var {x : String} {v : Value} {σ : Store} (k : Sink) (hx : σ.lookup x = some v) :
      BigStep (.expr (.var x)) σ k (.ok (v, σ)) k
  | undeclared {x : String} {σ : Store} (k : Sink) (hx : σ.lookup x = none) :
      BigStep (.expr (.var x)) σ k (.error (.undeclared x)) k
  /-- The tag of the name is looked up in the map that the value gave. -/
  | assign {x : String} {e : Expr} {v : Value} {σ τ : Store} {k k' : Sink}
      (h : BigStep (.expr e) σ k (.ok (v, τ)) k')
      (hx : ∀ w, τ.lookup x = some w → w.tag = v.tag) :
      BigStep (.expr (.assign x e)) σ k (.ok (v, τ.insert x v)) k'
  | assignMismatch {x : String} {e : Expr} {v w : Value} {σ τ : Store} {k k' : Sink}
      (h : BigStep (.expr e) σ k (.ok (v, τ)) k') (hx : τ.lookup x = some w)
      (ht : w.tag ≠ v.tag) :
      BigStep (.expr (.assign x e)) σ k (.error (.assignmentMismatch x w.tag v.tag)) k'
  | assignFails (x : String) {e : Expr} {c : Cause} {σ : Store} {k k' : Sink}
      (h : BigStep (.expr e) σ k (.error c) k') :
      BigStep (.expr (.assign x e)) σ k (.error c) k'
  /-- Both operands are evaluated, whatever the operator is. -/
  | binary {o : Operator} {l r : Expr} {u v w : Value} {σ τ υ : Store} {k k₁ k₂ : Sink}
      (hl : BigStep (.expr l) σ k (.ok (v, τ)) k₁) (hr : BigStep (.expr r) τ k₁ (.ok (w, υ)) k₂)
      (ho : o.Gives v w (.ok u)) : BigStep (.expr (.binary o l r)) σ k (.ok (u, υ)) k₂
  | binaryFault {o : Operator} {l r : Expr} {v w : Value} {c : Cause} {σ τ υ : Store}
      {k k₁ k₂ : Sink} (hl : BigStep (.expr l) σ k (.ok (v, τ)) k₁)
      (hr : BigStep (.expr r) τ k₁ (.ok (w, υ)) k₂) (ho : o.Gives v w (.error c)) :
      BigStep (.expr (.binary o l r)) σ k (.error c) k₂
  | leftFails (o : Operator) {l : Expr} (r : Expr) {c : Cause} {σ : Store} {k k' : Sink}
      (h : BigStep (.expr l) σ k (.error c) k') :
      BigStep (.expr (.binary o l r)) σ k (.error c) k'
  | rightFails (o : Operator) {l r : Expr} {v : Value} {c : Cause} {σ τ : Store}
      {k k₁ k₂ : Sink} (hl : BigStep (.expr l) σ k (.ok (v, τ)) k₁)
      (hr : BigStep (.expr r) τ k₁ (.error c) k₂) :
      BigStep (.expr (.binary o l r)) σ k (.error c) k₂
  | not {e : Expr} {b : Bool} {σ τ : Store} {k k' : Sink}
      (h : BigStep (.expr e) σ k (.ok (.boolean b, τ)) k') :
      BigStep (.expr (.not e)) σ k (.ok (.boolean (!b), τ)) k'
  | notMismatch {e : Expr} {v : Value} {σ τ : Store} {k k' : Sink}
      (h : BigStep (.expr e) σ k (.ok (v, τ)) k') (ht : v.tag ≠ .boolean) :
      BigStep (.expr (.not e)) σ k (.error (.notMismatch v.tag)) k'
  | notFails {e : Expr} {c : Cause} {σ : Store} {k k' : Sink}
      (h : BigStep (.expr e) σ k (.error c) k') : BigStep (.expr (.not e)) σ k (.error c) k'
  /-- One branch is evaluated, in the map of the condition. -/
  | branch {c y n : Expr} {b : Bool} {σ τ : Store} {k k₁ k₂ : Sink} {o : Outcome}
      (hc : BigStep (.expr c) σ k (.ok (.boolean b, τ)) k₁)
      (h : BigStep (.expr (if b then y else n)) τ k₁ o k₂) :
      BigStep (.expr (.branch c y n)) σ k o k₂
  | branchMismatch {c : Expr} (y n : Expr) {v : Value} {σ τ : Store} {k k' : Sink}
      (hc : BigStep (.expr c) σ k (.ok (v, τ)) k') (ht : v.tag ≠ .boolean) :
      BigStep (.expr (.branch c y n)) σ k (.error (.conditionMismatch .branch v.tag)) k'
  | branchFails {c : Expr} (y n : Expr) {f : Cause} {σ : Store} {k k' : Sink}
      (hc : BigStep (.expr c) σ k (.error f) k') :
      BigStep (.expr (.branch c y n)) σ k (.error f) k'
  | sequence {es : List Expr} {σ : Store} {k k' : Sink} {o : Outcome}
      (h : BigStep (.items es .unit) σ k o k') : BigStep (.expr (.sequence es)) σ k o k'
  | program {es : List Expr} {σ : Store} {k k' : Sink} {o : Outcome}
      (h : BigStep (.items es .unit) σ k o k') : BigStep (.expr (.program es)) σ k o k'
  | done (last : Value) (σ : Store) (k : Sink) : BigStep (.items [] last) σ k (.ok (last, σ)) k
  | item {e : Expr} {es : List Expr} {v last : Value} {σ τ : Store} {k k₁ k₂ : Sink}
      {o : Outcome} (h : BigStep (.expr e) σ k (.ok (v, τ)) k₁)
      (hs : BigStep (.items es v) τ k₁ o k₂) : BigStep (.items (e :: es) last) σ k o k₂
  | itemFails {e : Expr} (es : List Expr) (last : Value) {c : Cause} {σ : Store} {k k' : Sink}
      (h : BigStep (.expr e) σ k (.error c) k') : BigStep (.items (e :: es) last) σ k (.error c) k'
  | loop {c b : Expr} {σ : Store} {k k' : Sink} {o : Outcome}
      (h : BigStep (.rounds c b .unit) σ k o k') : BigStep (.expr (.loop c b)) σ k o k'
  /-- The map of the condition that ends the loop is dropped. -/
  | stop {c : Expr} (b : Expr) (last : Value) {σ τ : Store} {k k' : Sink}
      (hc : BigStep (.expr c) σ k (.ok (.boolean false, τ)) k') :
      BigStep (.rounds c b last) σ k (.ok (last, σ)) k'
  | again {c b : Expr} {v last : Value} {σ τ υ : Store} {k k₁ k₂ k₃ : Sink} {o : Outcome}
      (hc : BigStep (.expr c) σ k (.ok (.boolean true, τ)) k₁)
      (hb : BigStep (.expr b) τ k₁ (.ok (v, υ)) k₂) (h : BigStep (.rounds c b v) υ k₂ o k₃) :
      BigStep (.rounds c b last) σ k o k₃
  | loopMismatch {c : Expr} (b : Expr) (last : Value) {v : Value} {σ τ : Store} {k k' : Sink}
      (hc : BigStep (.expr c) σ k (.ok (v, τ)) k') (ht : v.tag ≠ .boolean) :
      BigStep (.rounds c b last) σ k (.error (.conditionMismatch .loop v.tag)) k'
  | conditionFails {c : Expr} (b : Expr) (last : Value) {f : Cause} {σ : Store} {k k' : Sink}
      (hc : BigStep (.expr c) σ k (.error f) k') :
      BigStep (.rounds c b last) σ k (.error f) k'
  | bodyFails {c b : Expr} (last : Value) {f : Cause} {σ τ : Store} {k k₁ k₂ : Sink}
      (hc : BigStep (.expr c) σ k (.ok (.boolean true, τ)) k₁)
      (hb : BigStep (.expr b) τ k₁ (.error f) k₂) :
      BigStep (.rounds c b last) σ k (.error f) k₂
  /-- The text of a value is written on a line of its own. -/
  | print {e : Expr} {v : Value} {text : String} {σ τ : Store} {k k₁ k₂ : Sink}
      (h : BigStep (.expr e) σ k (.ok (v, τ)) k₁) (hv : v.Shows text)
      (hk : k₁.Takes (text ++ "\n").toUTF8 (.ok ()) k₂) :
      BigStep (.expr (.print e)) σ k (.ok (v, τ)) k₂
  | printRefused {e : Expr} {v : Value} {text message : String} {σ τ : Store} {k k₁ k₂ : Sink}
      (h : BigStep (.expr e) σ k (.ok (v, τ)) k₁) (hv : v.Shows text)
      (hk : k₁.Takes (text ++ "\n").toUTF8 (.error message) k₂) :
      BigStep (.expr (.print e)) σ k (.error (.outputFailed message)) k₂
  | printFails {e : Expr} {c : Cause} {σ : Store} {k k' : Sink}
      (h : BigStep (.expr e) σ k (.error c) k') : BigStep (.expr (.print e)) σ k (.error c) k'

end ExprScript
