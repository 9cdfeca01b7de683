import ExprScript.Proofs.Likeness
import ExprScript.Proofs.Respacing
import ExprScript.Run
import Mathlib.Data.List.TakeWhile

/-!
# Programs in chunks

A source that ends with a separator may be read and run by itself, and what comes after it later:
nothing is carried over but the environment. A newline between the two keeps a comment at the end of
the first from reaching into the second.

* `tokenize_newline`: the tokens of two sources with a newline between them.
* **`Derives.items_append`**: items after items that end with a separator.
* **`readSource_chunks`**: two sources are read and run as one.
-/

namespace ExprScript

/-! ## Tokens -/

theorem Segmented.endless {file : String} {n n' : Nat} {cs cs' : List Char} {ts : List Token}
    (h : Segmented file n cs ts n' cs') : Endless ts := by
  induction h with
  | nil => exact endless_nil
  | token hm hx _ ih => exact endless_cons.2 ⟨hx.kind_ne_eof hm.mem, ih⟩
  | skip _ _ _ ih => exact ih

theorem tokenize_endless {source : String} {file : Option String} {us : List Token} {e : Token}
    (h : tokenize source file = .ok (us ++ [e])) : Endless us ∧ e.kind = .eof := by
  obtain ⟨vs, n, hs, hts⟩ := tokenize_eq_ok_iff.1 h
  obtain ⟨rfl, he⟩ := List.append_inj' hts rfl
  cases he
  exact ⟨hs.endless, rfl⟩

/-- **The tokens of two sources, each on lines of its own.** -/
theorem tokenize_newline {a b : String} {file : Option String} {us vs : List Token} {e : Token}
    (ha : tokenize a file = .ok (us ++ [e])) (hb : tokenize b file = .ok vs) :
    tokenize (a ++ "\n" ++ b) file = .ok (us ++ vs.map (·.shift (a.utf8ByteSize + 1))) := by
  obtain ⟨us', n, hsa, hus⟩ := tokenize_eq_ok_iff.1 ha
  obtain ⟨rfl, -⟩ := List.append_inj' hus rfl
  obtain ⟨vs', m, hsb, rfl⟩ := tokenize_eq_ok_iff.1 hb
  obtain rfl : n = a.utf8ByteSize := (hsa.remains (remains_zero a)).2.add_width_eq
  rw [tokenize, Reader.start]
  generalize file.getD unnamedSource = file at hsa hsb ⊢
  have hlist : (a ++ "\n" ++ b).toList = a.toList ++ '\n' :: b.toList := by simp
  have hfirst : (Reader.mk file 0 (a.toList ++ '\n' :: b.toList)).scan =
      (Reader.mk file a.utf8ByteSize ('\n' :: b.toList)).scan.map (us ++ ·) :=
    hsa.scan_respaced (List.append_nil _).symm rfl fun _ n ds hds =>
      Reader.scan_comment file n hds (.inr ⟨_, rfl⟩)
  have hsecond := hsb.scan_shift (a.utf8ByteSize + 1)
  rw [Nat.zero_add] at hsecond
  rw [hlist, hfirst, Reader.scan_blank file _ rfl]
  exact congrArg (Except.map _) hsecond

/-! ## Items -/

theorem Derives.exists_concat {p : Phrase} {u : List Token} {e : Expr} (h : Derives p u e)
    (hp : p ≠ .items) : ∃ v t, u = v ++ [t] ∧ t.kind ≠ .semicolon := by
  have tighter_ne (l : Level) : l.tighter ≠ .items := by cases l <;> simp [Level.tighter]
  have append (v : List Token) {u : List Token} (h : ∃ w t, u = w ++ [t] ∧ t.kind ≠ .semicolon) :
      ∃ w t, v ++ u = w ++ [t] ∧ t.kind ≠ .semicolon := by
    obtain ⟨w, t, rfl, ht⟩ := h
    exact ⟨v ++ w, t, (List.append_assoc _ _ _).symm, ht⟩
  induction h with
  | noItems | separated | lastItem | closed => exact absurd rfl hp
  | operation _ ih | simple _ ih | braces _ ih | choice _ ih => exact ih (by simp)
  | operand _ ih => exact ih (tighter_ne _)
  | @assign t u _ _ _ _ _ _ ih => simpa using append (u ++ [t]) (ih (by simp))
  | @binary _ t u _ _ _ _ _ _ _ _ ih => simpa using append (u ++ [t]) (ih (tighter_ne _))
  | @not t _ _ _ _ ih | @negativeInteger t _ _ _ _ ih | @negativeFloat t _ _ _ _ ih =>
    simpa using append [t] (ih (by simp))
  | integer ht | float ht | name ht | string ht | truth ht | falsity ht =>
    exact ⟨[], _, rfl, by simp [ht]⟩
  | @unit l _ _ hr => exact ⟨[l], _, rfl, by simp [hr]⟩
  | @group l _ u _ _ hr | @block l _ u _ _ hr => exact ⟨l :: u, _, rfl, by simp [hr]⟩
  | @print t l _ u _ _ _ hr => exact ⟨t :: l :: u, _, rfl, by simp [hr]⟩
  | @loop t u _ _ _ _ _ _ _ ih | @branch t u _ _ _ _ _ _ _ ih =>
    simpa using append (t :: u) (ih (by simp))
  | @branchElse s t u v _ _ _ _ _ _ _ _ _ ho _ _ _ ih =>
    have hno := ih (by rcases ho with rfl | rfl <;> simp)
    simpa using append (t :: (u ++ (v ++ [s]))) hno

/-- **Items after items that end with a separator.** -/
theorem Derives.items_append {u v : List Token} {xs ys : List Expr}
    (hu : Derives .items u (.sequence xs)) (hlast : ∀ t ∈ u.getLast?, t.kind = .semicolon)
    (hv : Derives .items v (.sequence ys)) : Derives .items (u ++ v) (.sequence (xs ++ ys)) := by
  generalize hp : Phrase.items = p at hu
  generalize he : Expr.sequence xs = e at hu
  induction hu generalizing xs with
  | noItems =>
    cases he
    exact hv
  | @separated t u w e es h ht hs _ ih =>
    cases he
    have hlast' : ∀ s ∈ w.getLast?, s.kind = .semicolon := by
      intro s hs
      refine hlast s ?_
      rw [List.getLast?_append, List.getLast?_cons, Option.mem_def.1 hs]
      rfl
    rw [List.append_assoc, List.cons_append, List.cons_append]
    exact .separated h ht (ih hlast' rfl rfl)
  | @lastItem u e h =>
    obtain ⟨w, t, rfl, ht⟩ := h.exists_concat (by simp)
    exact absurd (hlast t (by simp)) ht
  | @closed s t u w e es h hu hs ht hw _ ih =>
    cases he
    rw [List.getLast?_append_of_ne_nil _ (List.cons_ne_nil t w)] at hlast
    rw [List.append_assoc]
    exact .closed h hu hs ht (ih hlast rfl rfl)
  | _ => cases hp

/-! ## Sources -/

theorem takeWhile_concat_end {us : List Token} {t : Token} (hus : Endless us)
    (ht : t.kind = .eof) : (us ++ [t]).takeWhile (·.kind ≠ .eof) = us := by
  rw [takeWhile_append_end us ht, List.takeWhile_eq_self_iff]
  simpa [Endless] using hus

theorem readSource_eq_ok_iff {source : String} {file : Option String} {e : Expr} :
    readSource source file = some (.ok e) ↔
      ∃ us t es, tokenize source file = .ok (us ++ [t]) ∧ e = .program es ∧
        Derives .items us (.sequence es) := by
  constructor
  · intro h
    cases hts : tokenize source file with
    | error fault =>
      rw [readSource, hts] at h
      cases h
    | ok ts =>
      rw [readSource, hts] at h
      obtain ⟨us, n, -, rfl⟩ := tokenize_eq_ok_iff.1 hts
      obtain ⟨hus, ht⟩ := tokenize_endless hts
      obtain ⟨es, rfl, hd⟩ := derives_of_parse h
      rw [takeWhile_concat_end hus ht] at hd
      exact ⟨us, _, es, rfl, rfl, hd⟩
  · rintro ⟨us, t, es, hts, rfl, hd⟩
    obtain ⟨hus, ht⟩ := tokenize_endless hts
    rw [readSource, hts]
    refine parse_of_derives ?_
    rwa [takeWhile_concat_end hus ht]

theorem Derives.shift {u : List Token} {es : List Expr} (h : Derives .items u (.sequence es))
    (k : Nat) : Derives .items (u.map (·.shift k)) (.sequence es) := by
  let t := Token.eof 0 unnamedSource
  have hread : parse (u ++ [t]) unnamedSource = some (.ok (.program es)) := by
    refine parse_of_derives ?_
    rwa [takeWhile_concat_end h.endless rfl]
  have hmap : parse ((u ++ [t]).map (·.shift k)) unnamedSource = some (.ok (.program es)) := by
    rw [parse_map (f := (·.shift k)) (g := Position.shift k) (fun _ => ⟨rfl, rfl⟩) rfl
      (fun _ _ => rfl), hread]
    rfl
  obtain ⟨es', hes, hd⟩ := derives_of_parse hmap
  cases hes
  have hu : Endless (u.map (·.shift k)) := by
    simpa [Endless, Token.shift] using h.endless
  rwa [List.map_append, List.map_singleton, takeWhile_concat_end hu rfl] at hd

/-- **Two sources are read and run as one**, if the first has no tokens or ends with a separator. -/
theorem readSource_chunks {a b : String} {file : Option String} {us : List Token} {t : Token}
    {p q : Expr} (ha : readSource a file = some (.ok p)) (hb : readSource b file = some (.ok q))
    (htokens : tokenize a file = .ok (us ++ [t])) (hlast : ∀ s ∈ us.getLast?, s.kind = .semicolon)
    (hq : q ≠ .program []) :
    ∃ xs ys, p = .program xs ∧ q = .program ys ∧
      readSource (a ++ "\n" ++ b) file = some (.ok (.program (xs ++ ys))) ∧
      ∀ rounds env, (Expr.program (xs ++ ys)).eval rounds env =
        p.eval rounds env >>= fun r => q.eval rounds r.env := by
  obtain ⟨us', t', xs, hts, rfl, hxs⟩ := readSource_eq_ok_iff.1 ha
  rw [hts] at htokens
  obtain ⟨rfl, -⟩ := List.append_inj' (Except.ok.inj htokens) rfl
  obtain ⟨vs, s, ys, hvs, rfl, hys⟩ := readSource_eq_ok_iff.1 hb
  refine ⟨xs, ys, rfl, rfl, ?_, fun rounds env => ?_⟩
  · have hboth := tokenize_newline hts hvs
    rw [List.map_append, List.map_singleton, ← List.append_assoc] at hboth
    exact readSource_eq_ok_iff.2 ⟨_, _, _, hboth, rfl, hxs.items_append hlast (hys.shift _)⟩
  · have hys' : ys ≠ [] := by
      rintro rfl
      exact hq rfl
    show Expr.evalAll rounds (xs ++ ys) _ = Expr.evalAll rounds xs _ >>= _
    rw [Expr.evalAll_append]
    congr 1
    funext r
    exact Expr.evalAll_of_ne_nil rounds hys' r

theorem readSource_chunks_comment :
    let a := "x=1;//à"
    let b := "print(x);x=true"
    let us : List Token := [⟨.identifier, "x", .ofNat 0 1 "shell"⟩,
      ⟨.assignment, "=", .ofNat 1 2 "shell"⟩, ⟨.number, "1", .ofNat 2 3 "shell"⟩,
      ⟨.semicolon, ";", .ofNat 3 4 "shell"⟩]
    let p := Expr.program [.assign "x" (.literal (.integer 1))]
    let q := Expr.program [.print (.var "x"), .assign "x" (.literal (.boolean true))]
    let whole := Expr.program [.assign "x" (.literal (.integer 1)), .print (.var "x"),
      .assign "x" (.literal (.boolean true))]
    readSource a none = some (.ok p) ∧ readSource b none = some (.ok q) ∧
      tokenize a none = .ok (us ++ [.eof 8 "shell"]) ∧
      (∀ t ∈ us.getLast?, t.kind = .semicolon) ∧ q ≠ .program [] ∧
      readSource (a ++ "\n" ++ b) none = some (.ok whole) ∧
      ∀ rounds env, whole.eval rounds env =
        p.eval rounds env >>= fun r => q.eval rounds r.env := by
  intro a b us p q whole
  have htokens : tokenize a none = .ok (us ++ [.eof 8 "shell"]) := by decide +kernel
  have hone : Derives .expr [⟨.number, "1", .ofNat 2 3 "shell"⟩] (.literal (.integer 1)) :=
    .expr_of_unary (.simple (.integer rfl (by decide) rfl))
  have ha : readSource a none = some (.ok p) :=
    readSource_eq_ok_iff.2 ⟨us, _, _, htokens, rfl,
      .separated (u := [_, _, _]) (.assign (u := [_]) (.name rfl) rfl hone) rfl .noItems⟩
  let vs : List Token := [⟨.printWord, "print", .ofNat 0 5 "shell"⟩,
    ⟨.openParen, "(", .ofNat 5 6 "shell"⟩, ⟨.identifier, "x", .ofNat 6 7 "shell"⟩,
    ⟨.closeParen, ")", .ofNat 7 8 "shell"⟩, ⟨.semicolon, ";", .ofNat 8 9 "shell"⟩,
    ⟨.identifier, "x", .ofNat 9 10 "shell"⟩, ⟨.assignment, "=", .ofNat 10 11 "shell"⟩,
    ⟨.trueWord, "true", .ofNat 11 15 "shell"⟩]
  have hvs : tokenize b none = .ok (vs ++ [.eof 15 "shell"]) := by decide +kernel
  have hb : readSource b none = some (.ok q) := by
    have hx : Derives .expr [⟨.identifier, "x", .ofNat 6 7 "shell"⟩] (.var "x") :=
      .expr_of_unary (.simple (.name rfl))
    refine readSource_eq_ok_iff.2 ⟨vs, _, _, hvs, rfl, .separated (u := [_, _, _, _]) ?_ rfl
      (.lastItem (.assign (u := [_]) (.name rfl) rfl (.expr_of_unary (.simple (.truth rfl)))))⟩
    exact .expr_of_unary (.simple (.print (u := [_]) rfl rfl rfl hx))
  have hlast : ∀ t ∈ us.getLast?, t.kind = .semicolon := by simp [us]
  have hq : q ≠ .program [] := by simp [q]
  obtain ⟨xs, ys, hp, hq', hread, hrun⟩ := readSource_chunks ha hb htokens hlast hq
  obtain rfl := Expr.program.inj hp
  obtain rfl := Expr.program.inj hq'
  exact ⟨ha, hb, htokens, hlast, hq, hread, hrun⟩

end ExprScript
