/-!
# Attempts

An attempt changes a state and ends with a value or a fault; the state survives a fault. An attempt
that was given too small a budget to end answers `none`, which is neither.

* `Attempt.bind_ok_iff`, `Attempt.bind_error_iff`, `Attempt.bind_eq_some_iff`: how an attempt in two
  parts ends.
* `Attempt.ExtendsTo`: one attempt ends as another does, wherever that one ends.
-/

namespace ExprScript

/-- A computation on a state of type `σ` that ends with a value of type `α` or a fault of type
`ε`. -/
def Attempt (σ ε α : Type) : Type := σ → Option (Except ε α × σ)

namespace Attempt

variable {σ ε α β : Type}

/-- End at once with a value. -/
@[inline]
def succeed (a : α) : Attempt σ ε α := fun s => some (.ok a, s)

/-- End at once with a fault. -/
@[inline]
def fail (e : ε) : Attempt σ ε α := fun s => some (.error e, s)

/-- The budget is spent. -/
@[inline]
def spent : Attempt σ ε α := fun _ => none

/-- Go on with the value of the first part, if it has one. -/
@[inline]
def andThen (x : Attempt σ ε α) (f : α → Attempt σ ε β) : Attempt σ ε β := fun s =>
  match x s with
  | some (.ok a, t) => f a t
  | some (.error e, t) => some (.error e, t)
  | none => none

@[always_inline]
instance : Monad (Attempt σ ε) where
  pure := succeed
  bind := andThen

/-- The state as it is. -/
@[inline]
def state : Attempt σ ε σ := fun s => some (.ok s, s)

/-- Put another state in place. -/
@[inline]
def put (s : σ) : Attempt σ ε Unit := fun _ => some (.ok (), s)

/-- A value or a fault that is already known. -/
@[inline]
def ofExcept (r : Except ε α) : Attempt σ ε α := fun s => some (r, s)

@[simp]
theorem pure_apply (a : α) (s : σ) : (pure a : Attempt σ ε α) s = some (.ok a, s) := rfl

@[simp]
theorem fail_apply (e : ε) (s : σ) : (fail e : Attempt σ ε α) s = some (.error e, s) := rfl

@[simp]
theorem spent_apply (s : σ) : (spent : Attempt σ ε α) s = none := rfl

@[simp]
theorem state_apply (s : σ) : (state : Attempt σ ε σ) s = some (.ok s, s) := rfl

@[simp]
theorem put_apply (s t : σ) : (put s : Attempt σ ε Unit) t = some (.ok (), s) := rfl

@[simp]
theorem ofExcept_apply (r : Except ε α) (s : σ) :
    (ofExcept r : Attempt σ ε α) s = some (r, s) := rfl

theorem bind_apply (x : Attempt σ ε α) (f : α → Attempt σ ε β) (s : σ) :
    (x >>= f) s =
      match x s with
      | some (.ok a, t) => f a t
      | some (.error e, t) => some (.error e, t)
      | none => none := rfl

theorem bind_of_ok {x : Attempt σ ε α} {s t : σ} {a : α} (h : x s = some (.ok a, t))
    (f : α → Attempt σ ε β) : (x >>= f) s = f a t := by
  rw [bind_apply, h]

theorem bind_of_error {x : Attempt σ ε α} {s t : σ} {e : ε} (h : x s = some (.error e, t))
    (f : α → Attempt σ ε β) : (x >>= f) s = some (.error e, t) := by
  rw [bind_apply, h]

theorem bind_of_none {x : Attempt σ ε α} {s : σ} (h : x s = none) (f : α → Attempt σ ε β) :
    (x >>= f) s = none := by
  rw [bind_apply, h]

theorem bind_ok_iff {x : Attempt σ ε α} {f : α → Attempt σ ε β} {s t : σ} {b : β} :
    (x >>= f) s = some (.ok b, t) ↔
      ∃ a u, x s = some (.ok a, u) ∧ f a u = some (.ok b, t) := by
  rw [bind_apply]
  rcases x s with _ | ⟨_ | _, _⟩ <;> simp [and_assoc]

theorem bind_error_iff {x : Attempt σ ε α} {f : α → Attempt σ ε β} {s t : σ} {e : ε} :
    (x >>= f) s = some (.error e, t) ↔
      x s = some (.error e, t) ∨ ∃ a u, x s = some (.ok a, u) ∧ f a u = some (.error e, t) := by
  rw [bind_apply]
  rcases x s with _ | ⟨_ | _, _⟩ <;> simp [and_assoc]

theorem bind_eq_some_iff {x : Attempt σ ε α} {f : α → Attempt σ ε β} {s : σ}
    {p : Except ε β × σ} :
    (x >>= f) s = some p ↔
      (∃ e t, x s = some (.error e, t) ∧ (.error e, t) = p) ∨
        ∃ a t, x s = some (.ok a, t) ∧ f a t = some p := by
  rw [bind_apply]
  rcases x s with _ | ⟨_ | _, _⟩ <;> simp [and_assoc]

theorem bind_ne_none {x : Attempt σ ε α} {f : α → Attempt σ ε β} {s : σ} (hx : x s ≠ none)
    (hf : ∀ a t, x s = some (.ok a, t) → f a t ≠ none) : (x >>= f) s ≠ none := by
  rw [bind_apply]
  split
  · next a t h => exact hf a t h
  · simp
  · next h => exact absurd h hx

/-- Where the first attempt ends, so does the second, in the same way. -/
def ExtendsTo (x y : Attempt σ ε α) : Prop :=
  ∀ s p, x s = some p → y s = some p

theorem ExtendsTo.refl {x : Attempt σ ε α} : x.ExtendsTo x :=
  fun _ _ h => h

theorem ExtendsTo.bind {x y : Attempt σ ε α} {f g : α → Attempt σ ε β}
    (hx : x.ExtendsTo y) (hf : ∀ a, (f a).ExtendsTo (g a)) : (x >>= f).ExtendsTo (y >>= g) := by
  intro s p h
  rcases bind_eq_some_iff.1 h with ⟨e, t, he, rfl⟩ | ⟨a, t, ha, hp⟩
  · exact bind_of_error (hx s _ he) g
  · rw [bind_of_ok (hx s _ ha)]
    exact hf a t p hp

instance : LawfulMonad (Attempt σ ε) :=
  LawfulMonad.mk' _
    (fun x => by funext s; simp only [Functor.map, andThen]; rcases x s with _ | ⟨_ | _, _⟩ <;> rfl)
    (fun _ _ => rfl)
    (fun x f g => by funext s; simp only [bind_apply]; rcases x s with _ | ⟨_ | _, _⟩ <;> rfl)

end Attempt

end ExprScript
