import ExprScript.FileTree
import Mathlib.Data.List.Induction

/-!
# Where paths lead

A path is followed part by part. Names lead into directories and to files, an empty part and a
single dot stay, and two dots lead upwards, at last out of the tree.

* `Splits`: the parts of a path; `splits_iff`.
* `FileTree.Steps`: where one part leads; `FileTree.step_iff`.
* `FileTree.Leads`, `FileTree.LeadsTo`: where some parts lead, and where a path does.
* **`FileTree.read_eq_ok_iff`**: a file can be read if the path leads to it.
* `FileTree.LeadsTo.fileName?_eq`: such a path ends in the name of the file.
-/

namespace ExprScript

/-! ## Parts -/

/-- The parts of the path between its slashes. -/
structure Splits (path : String) (parts : List String) : Prop where
  ne_nil : parts ≠ []
  joined : "/".intercalate parts = path
  noSlash : ∀ part ∈ parts, '/' ∉ part.toList

theorem splitSlashes_of_notMem {part : List Char} (h : '/' ∉ part) :
    splitSlashes part = [part] := by
  induction part with
  | nil => rfl
  | cons c part ih =>
    obtain ⟨hc, hpart⟩ := not_or.1 (mt List.mem_cons.2 h)
    rw [splitSlashes, if_neg (Ne.symm hc), ih hpart]

theorem splitSlashes_append {part : List Char} (h : '/' ∉ part) (rest : List Char) :
    splitSlashes (part ++ '/' :: rest) = part :: splitSlashes rest := by
  induction part with
  | nil => rfl
  | cons c part ih =>
    obtain ⟨hc, hpart⟩ := not_or.1 (mt List.mem_cons.2 h)
    rw [List.cons_append, splitSlashes, if_neg (Ne.symm hc), ih hpart]

theorem Splits.eq_pathParts {path : String} {parts : List String} (h : Splits path parts) :
    parts = pathParts path := by
  obtain ⟨hnil, rfl, hslash⟩ := h
  induction parts with
  | nil => exact absurd rfl hnil
  | cons part parts ih =>
    have hpart := hslash part List.mem_cons_self
    cases parts with
    | nil => simp [pathParts, splitSlashes_of_notMem hpart]
    | cons next parts =>
      have hrest := ih (by simp) fun q hq => hslash q (List.mem_cons_of_mem _ hq)
      have hchars : ("/".intercalate (part :: next :: parts)).toList =
          part.toList ++ '/' :: ("/".intercalate (next :: parts)).toList := by simp
      rw [pathParts, hchars, splitSlashes_append hpart, List.map_cons, String.ofList_toList,
        ← pathParts, ← hrest]

theorem exists_splits (cs : List Char) : ∃ parts, Splits (.ofList cs) parts := by
  induction cs with
  | nil => exact ⟨[""], by simp, rfl, by simp⟩
  | cons c cs ih =>
    obtain ⟨_ | ⟨part, parts⟩, hnil, hjoined, hslash⟩ := ih
    · exact absurd rfl hnil
    rw [String.ofList_cons, ← hjoined]
    by_cases hc : c = '/'
    · subst hc
      exact ⟨"" :: part :: parts, by simp, by simp, by simpa using hslash⟩
    · obtain ⟨hpart, hparts⟩ := List.forall_mem_cons.1 hslash
      refine ⟨(String.singleton c ++ part) :: parts, by simp, String.intercalate_cons_append, ?_⟩
      exact List.forall_mem_cons.2 ⟨by simp [Ne.symm hc, hpart], hparts⟩

theorem splits_iff {path : String} {parts : List String} :
    Splits path parts ↔ parts = pathParts path := by
  refine ⟨Splits.eq_pathParts, ?_⟩
  rintro rfl
  obtain ⟨parts, h⟩ := exists_splits path.toList
  rw [String.ofList_toList] at h
  exact h.eq_pathParts ▸ h

/-! ## Steps -/

/-- The part is a name, not a step on the spot or upwards. -/
def NamesEntry (part : String) : Prop := part ≠ "" ∧ part ≠ "." ∧ part ≠ ".."

theorem staysHere_iff {part : String} : staysHere part = true ↔ part = "" ∨ part = "." := by
  simp [staysHere]

theorem here_or_up_or_namesEntry (part : String) :
    staysHere part = true ∨ part = ".." ∨ NamesEntry part := by
  rw [staysHere_iff, NamesEntry]
  tauto

namespace FileTree

variable {t : FileTree}

/-- One part leads from a place to another. Nothing leads on from a file, and no name leads on from
outside the tree. -/
inductive Steps (t : FileTree) : Place → String → Place → Prop
  | stay (path : List String) {part : String} (h : part = "" ∨ part = ".") :
      Steps t (.directory path) part (.directory path)
  | up (path : List String) (name : String) :
      Steps t (.directory (path ++ [name])) ".." (.directory path)
  | leave : Steps t (.directory []) ".." .outside
  | linger {part : String} (h : part = "" ∨ part = "." ∨ part = "..") :
      Steps t .outside part .outside
  /-- Something lies below the directory. -/
  | enter {path : List String} {name : String} (hn : NamesEntry name)
      (hfile : t.files.lookup (path ++ [name]) = none)
      (h : ∃ f ∈ t.files, path ++ [name] <+: f.1) :
      Steps t (.directory path) name (.directory (path ++ [name]))
  | reach {path : List String} {name : String} {contents : ByteArray} (hn : NamesEntry name)
      (h : t.files.lookup (path ++ [name]) = some contents) :
      Steps t (.directory path) name (.file contents)

theorem find?_eq_some_iff {path : List String} {place : Place} :
    t.find? path = some place ↔
      (∃ contents, t.files.lookup path = some contents ∧ .file contents = place) ∨
        t.files.lookup path = none ∧ (∃ f ∈ t.files, path <+: f.1) ∧ .directory path = place := by
  rw [find?]
  cases t.files.lookup path with
  | some contents => simp
  | none => simp [List.isPrefixOf_iff_prefix]

theorem step_of_namesEntry {part : String} (hn : NamesEntry part) {path : List String}
    {next : Place} :
    t.step (.directory path) part = .ok next ↔ t.find? (path ++ [part]) = some next := by
  have hhere : ¬ staysHere part = true := by
    rw [staysHere_iff]
    exact not_or.2 ⟨hn.1, hn.2.1⟩
  rw [step, if_neg hhere, if_neg hn.2.2]
  cases t.find? (path ++ [part]) <;> simp

theorem steps_of_step {path : List String} {part : String} {next : Place}
    (h : t.step (.directory path) part = .ok next) : t.Steps (.directory path) part next := by
  rcases here_or_up_or_namesEntry part with hhere | rfl | hn
  · rw [step, if_pos hhere] at h
    cases h
    exact .stay path (staysHere_iff.1 hhere)
  · cases path using List.reverseRecOn with
    | nil =>
      cases h
      exact .leave
    | append_singleton front name =>
      rw [step, if_neg (by simp [staysHere]), if_pos rfl, if_neg (by simp),
        List.dropLast_concat] at h
      cases h
      exact .up front name
  · rw [step_of_namesEntry hn, find?_eq_some_iff] at h
    rcases h with ⟨contents, hfile, rfl⟩ | ⟨hfile, hd, rfl⟩
    · exact .reach hn hfile
    · exact .enter hn hfile hd

/-- **One step leads where the rules say.** -/
theorem step_iff {place next : Place} {part : String} :
    t.step place part = .ok next ↔ t.Steps place part next := by
  constructor
  · intro h
    cases place with
    | file _ => cases h
    | outside =>
      rw [step] at h
      split_ifs at h with hpart
      cases h
      exact .linger (by simpa [staysHere, or_assoc] using hpart)
    | directory path => exact steps_of_step h
  · intro h
    cases h with
    | stay path h => rw [step, if_pos (staysHere_iff.2 h)]
    | up path name => simp [step, staysHere]
    | leave => rfl
    | linger h => rcases h with rfl | rfl | rfl <;> rfl
    | enter hn hfile h =>
      exact (step_of_namesEntry hn).2 (find?_eq_some_iff.2 (.inr ⟨hfile, h, rfl⟩))
    | reach hn h => exact (step_of_namesEntry hn).2 (find?_eq_some_iff.2 (.inl ⟨_, h, rfl⟩))

/-! ## Paths -/

/-- The parts lead from a place to another, one after the other. -/
inductive Leads (t : FileTree) : Place → List String → Place → Prop
  | done (place : Place) : Leads t place [] place
  | step {start next place : Place} {part : String} {parts : List String}
      (h : t.Steps start part next) (hs : Leads t next parts place) :
      Leads t start (part :: parts) place

theorem leads_iff {start place : Place} {parts : List String} :
    t.Leads start parts place ↔ parts.foldlM t.step start = .ok place := by
  induction parts generalizing start with
  | nil =>
    constructor
    · rintro ⟨⟩
      rfl
    · intro h
      cases h
      exact .done _
  | cons part parts ih =>
    rw [List.foldlM_cons]
    constructor
    · rintro (_ | ⟨h, hs⟩)
      rw [step_iff.2 h]
      exact ih.1 hs
    · intro h
      cases hnext : t.step start part with
      | error failure =>
        rw [hnext] at h
        cases h
      | ok next =>
        rw [hnext] at h
        exact .step (step_iff.1 hnext) (ih.2 h)

/-- Parts that lead to a file end in its name. -/
theorem Leads.exists_name {start : Place} {parts : List String} {contents : ByteArray}
    (h : t.Leads start parts (.file contents)) (hstart : ∀ bytes, start ≠ .file bytes) :
    ∃ front name, parts = front ++ [name] ∧ NamesEntry name := by
  generalize hplace : Place.file contents = place at h
  induction h with
  | done place => exact absurd hplace.symm (hstart contents)
  | @step start next place part parts h hs ih =>
    cases h with
    | reach hn hfile =>
      cases hs with
      | done => exact ⟨[], part, rfl, hn⟩
      | step h => cases h
    | _ =>
      obtain ⟨front, name, rfl, hn⟩ := ih (by simp) hplace
      exact ⟨_ :: front, name, rfl, hn⟩

/-- A path leads to a place. One that starts with a slash is followed from outside the tree. -/
structure LeadsTo (t : FileTree) (path : String) (parts : List String) (place : Place) : Prop where
  ne_empty : path ≠ ""
  splits : Splits path parts
  leads : t.Leads (if path.toList.head? = some '/' then .outside else .directory []) parts place

theorem LeadsTo.unique {path : String} {parts others : List String} {place other : Place}
    (h : t.LeadsTo path parts place) (h' : t.LeadsTo path others other) :
    parts = others ∧ place = other := by
  have hparts : parts = others := h.splits.eq_pathParts.trans h'.splits.eq_pathParts.symm
  subst hparts
  exact ⟨rfl, Except.ok.inj ((leads_iff.1 h.leads).symm.trans (leads_iff.1 h'.leads))⟩

/-- **A file can be read if the path leads to it.** -/
theorem read_eq_ok_iff {path : String} {contents : ByteArray} :
    t.read path = .ok contents ↔ ∃ parts, t.LeadsTo path parts (.file contents) := by
  constructor
  · intro h
    by_cases hempty : path = ""
    · rw [read, if_pos hempty] at h
      cases h
    refine ⟨pathParts path, hempty, splits_iff.2 rfl, leads_iff.2 ?_⟩
    rw [read, if_neg hempty] at h
    dsimp only at h
    cases hend : (pathParts path).foldlM t.step
        (if path.toList.head? = some '/' then .outside else .directory []) with
    | error failure =>
      rw [hend] at h
      cases h
    | ok place =>
      rw [hend] at h
      cases place with
      | file bytes =>
        cases h
        rfl
      | directory _ => cases h
      | outside => cases h
  · rintro ⟨parts, hempty, hsplits, hleads⟩
    rw [hsplits.eq_pathParts, leads_iff] at hleads
    rw [read, if_neg hempty]
    dsimp only
    rw [hleads]
    rfl

/-- A path that leads to a file ends in the name of the file. -/
theorem LeadsTo.fileName?_eq {path : String} {parts : List String} {contents : ByteArray}
    (h : t.LeadsTo path parts (.file contents)) : fileName? path = parts.getLast? := by
  obtain ⟨front, name, hparts, hn⟩ := h.leads.exists_name fun bytes => by split_ifs <;> simp
  have hhere : staysHere name = false := by
    rw [Bool.eq_false_iff, ne_eq, staysHere_iff]
    exact not_or.2 ⟨hn.1, hn.2.1⟩
  rw [fileName?, ← h.splits.eq_pathParts, hparts, List.getLast?_concat, List.filter_append]
  simp [hhere, hn.2.2]

end FileTree

end ExprScript
