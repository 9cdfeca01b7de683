import ExprScript.Fault
import ExprScript.Token.Pattern
import ExprScript.Token.Reader

/-!
# Reading a source into tokens

The scanner picks a pattern where it stands, emits what the picked text stands for and goes on after
it. It stops at the first character that starts no pattern.

* `Reader.emit`: the token, if any, that a pattern reads; `Reader.past`: the reader after it.
* `Reader.longest_append_rest_past`: nothing is lost between two patterns.
* `Reader.scan`: the tokens from a reader on.
* `Reader.scan_eq`: the same, with no tokens kept aside.
* `tokenize`: the tokens of a source.
-/

namespace ExprScript

namespace Reader

/-- The token that the pattern reads from here, or nothing for text that is passed over. -/
def emit (r : Reader) (p : Pattern) : List Token :=
  let picked := p.longest r.rest
  match p.token? picked with
  | some (kind, value) => [⟨kind, value, r.span (Text.width picked)⟩]
  | none => []

/-- The reader after what the pattern reads. -/
def past (r : Reader) (p : Pattern) : Reader :=
  r.advance (Text.width (p.longest r.rest))

theorem length_rest_past {r : Reader} {p : Pattern} (hr : r.rest ≠ [])
    (hp : Pattern.first? r.rest = some p) : (r.past p).rest.length < r.rest.length :=
  length_rest_advance (Text.width_pos (Pattern.longest_ne_nil_of_first? hp)) hr

/-- **Nothing is lost between two patterns.** -/
theorem longest_append_rest_past (r : Reader) (p : Pattern) :
    p.longest r.rest ++ (r.past p).rest = r.rest := by
  obtain ⟨rest, h⟩ := p.exists_longest_append r.rest
  have hrest : (r.past p).rest = rest := by
    have := Text.dropBytes_append (p.longest r.rest) rest
    rwa [h] at this
  rw [hrest, h]

/-- The tokens read before, in reverse, and those from `r` on. -/
def scanOnto (done : List Token) (r : Reader) : Except Fault (List Token) :=
  if hr : r.rest = [] then
    .ok (Token.mk .eof "EOF" (r.span 0) :: done).reverse
  else
    match hp : Pattern.first? r.rest with
    | some p =>
      have := length_rest_past hr hp
      scanOnto (r.emit p ++ done) (r.past p)
    | none => .error (.located (.unrecognised (String.singleton r.current)) r.position)
termination_by r.rest.length

/-- The tokens from `r` on. -/
def scan (r : Reader) : Except Fault (List Token) := scanOnto [] r

theorem reverse_emit (r : Reader) (p : Pattern) : (r.emit p).reverse = r.emit p := by
  unfold emit
  dsimp only
  split <;> rfl

theorem scanOnto_nil {r : Reader} (hr : r.rest = []) (done : List Token) :
    scanOnto done r = .ok (done.reverse ++ [Token.mk .eof "EOF" (r.span 0)]) := by
  rw [scanOnto, dif_pos hr, List.reverse_cons]

theorem scanOnto_some {r : Reader} {p : Pattern} (hr : r.rest ≠ [])
    (hp : Pattern.first? r.rest = some p) (done : List Token) :
    scanOnto done r = scanOnto (r.emit p ++ done) (r.past p) := by
  rw [scanOnto, dif_neg hr]
  split
  · next q hq =>
    obtain rfl := Option.some.inj (hq.symm.trans hp)
    rfl
  · next hq => exact absurd (hq.symm.trans hp) (by simp)

theorem scanOnto_none {r : Reader} (hr : r.rest ≠ []) (hp : Pattern.first? r.rest = none)
    (done : List Token) :
    scanOnto done r =
      .error (.located (.unrecognised (String.singleton r.current)) r.position) := by
  rw [scanOnto, dif_neg hr]
  split
  · next q hq => exact absurd (hq.symm.trans hp) (by simp)
  · rfl

theorem scanOnto_eq_map (done : List Token) (r : Reader) :
    scanOnto done r = (scan r).map (done.reverse ++ ·) := by
  induction hn : r.rest.length using Nat.strongRecOn generalizing done r with
  | ind n ih =>
    by_cases hr : r.rest = []
    · simp [scan, scanOnto_nil hr, Except.map]
    · cases hp : Pattern.first? r.rest with
      | none => simp [scan, scanOnto_none hr hp, Except.map]
      | some p =>
        have hlt := hn ▸ length_rest_past hr hp
        rw [scan, scanOnto_some hr hp, scanOnto_some hr hp, ih _ hlt _ (r.past p) rfl,
          ih _ hlt (r.emit p ++ []) (r.past p) rfl]
        cases scan (r.past p) <;> simp [Except.map, reverse_emit]

/-- **The tokens from `r` on,** with no tokens kept aside. -/
theorem scan_eq (r : Reader) :
    r.scan =
      if r.rest = [] then .ok [Token.mk .eof "EOF" (r.span 0)]
      else
        match Pattern.first? r.rest with
        | some p => (r.past p).scan.map (r.emit p ++ ·)
        | none => .error (.located (.unrecognised (String.singleton r.current)) r.position) := by
  by_cases hr : r.rest = []
  · simp [scan, scanOnto_nil hr, hr]
  · rw [if_neg hr]
    cases hp : Pattern.first? r.rest with
    | none => simp [scan, scanOnto_none hr hp]
    | some p =>
      rw [scan, scanOnto_some hr hp, scanOnto_eq_map]
      simp [reverse_emit]

end Reader

/-- The tokens of a source, the last of which marks its end. -/
def tokenize (source : String) (file : Option String) : Except Fault (List Token) :=
  (Reader.start source (file.getD unnamedSource)).scan

end ExprScript
