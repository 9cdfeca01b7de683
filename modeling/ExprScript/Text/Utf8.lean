/-!
# Byte counts of text

Offsets count the bytes of a text in UTF-8, while a text is read as a list of characters.

* `width`: the number of bytes of a list of characters.
* `width_append`, `width_toList`: it adds up, and it is the byte size of a `String`.
* `dropBytes`: what is left after a number of bytes; `length_dropBytes_lt`: less than before.
* `dropBytes_append`: dropping the bytes of an initial part leaves the rest.
-/

namespace ExprScript.Text

/-- The number of bytes of `cs` in UTF-8. -/
def width : List Char → Nat
  | [] => 0
  | c :: cs => c.utf8Size + width cs

@[simp]
theorem width_nil : width [] = 0 := rfl

@[simp]
theorem width_cons (c : Char) (cs : List Char) : width (c :: cs) = c.utf8Size + width cs := rfl

@[simp]
theorem width_append (cs ds : List Char) : width (cs ++ ds) = width cs + width ds := by
  induction cs with
  | nil => simp
  | cons c cs ih => simp [ih, Nat.add_assoc]

theorem width_pos {cs : List Char} (h : cs ≠ []) : 0 < width cs := by
  cases cs with
  | nil => exact absurd rfl h
  | cons c cs => have := c.utf8Size_pos; simp; omega

theorem width_eq_zero {cs : List Char} : width cs = 0 ↔ cs = [] := by
  cases cs with
  | nil => simp
  | cons c cs => have := c.utf8Size_pos; simp; omega

theorem width_ofList (cs : List Char) : (String.ofList cs).utf8ByteSize = width cs := by
  induction cs with
  | nil => rfl
  | cons c cs ih => rw [String.ofList_cons, String.utf8ByteSize_append, ih]; simp

theorem width_toList (s : String) : width s.toList = s.utf8ByteSize := by
  rw [← width_ofList, String.ofList_toList]

/-- What is left of `cs` after `n` bytes. A character that those bytes cut is dropped whole. -/
def dropBytes : Nat → List Char → List Char
  | 0, cs => cs
  | _ + 1, [] => []
  | n + 1, c :: cs => dropBytes (n + 1 - c.utf8Size) cs

theorem length_dropBytes_le (n : Nat) (cs : List Char) : (dropBytes n cs).length ≤ cs.length := by
  induction cs generalizing n with
  | nil => cases n <;> simp [dropBytes]
  | cons c cs ih =>
    cases n with
    | zero => simp [dropBytes]
    | succ n => exact Nat.le_succ_of_le (ih _)

theorem length_dropBytes_lt {n : Nat} {cs : List Char} (hn : 0 < n) (hc : cs ≠ []) :
    (dropBytes n cs).length < cs.length := by
  cases cs with
  | nil => exact absurd rfl hc
  | cons c cs =>
    cases n with
    | zero => exact absurd hn (Nat.lt_irrefl 0)
    | succ n =>
      rw [dropBytes]
      exact Nat.lt_succ_of_le (length_dropBytes_le _ _)

theorem dropBytes_append (cs ds : List Char) : dropBytes (width cs) (cs ++ ds) = ds := by
  induction cs with
  | nil => cases ds <;> rfl
  | cons c cs ih =>
    have hc := c.utf8Size_pos
    obtain ⟨n, hn⟩ : ∃ n, width (c :: cs) = n + 1 :=
      ⟨width (c :: cs) - 1, by simp; omega⟩
    rw [hn, List.cons_append, dropBytes, ← hn]
    simpa using ih

end ExprScript.Text
