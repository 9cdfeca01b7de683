import ExprScript.Command
import ExprScript.Proofs.Paths

/-!
# What the arguments of a command decide

Arguments are scanned in order. The first one that ends the command does so alone, whatever comes
after it. If no argument does, two things matter: whether a debug flag is among them, and the file.
The text that is run is that of the file that the path leads to, or of the standard input.

* `Decides`: an argument ends the command, after the ones that stand before it.
* `Undecided`: no argument of the list does.
* `Plan.ofArgs_append`: what the scan knows after arguments that decide nothing.
* `Completion.Relays`, `Completion.Unread`: how a command ends that could read a text, or could not.
* **`Command.run_outcome`**: how a command ends, by its arguments and by the run of its source.
-/

namespace ExprScript

/-! ## Arguments -/

/-- The argument asks for what was run to be written out. -/
def SetsDebug (arg : String) : Prop := arg = "-d" ∨ arg = "--debug"

/-- The argument asks for the usage. -/
def AsksHelp (arg : String) : Prop := arg = "-h" ∨ arg = "--help"

/-- The argument is an option, not a file. -/
def IsOption (arg : String) : Prop := arg.toList.head? = some '-'

instance (arg : String) : Decidable (SetsDebug arg) := inferInstanceAs (Decidable (_ ∨ _))

instance (arg : String) : Decidable (AsksHelp arg) := inferInstanceAs (Decidable (_ ∨ _))

instance (arg : String) : Decidable (IsOption arg) := inferInstanceAs (Decidable (_ = _))

/-- The argument, after these ones before it, ends the command in this way. -/
inductive Decides (before : List String) (arg : String) : Completion → Prop
  | help (hh : AsksHelp arg) : Decides before arg ⟨0, (usage ++ "\n").toUTF8, ""⟩
  | unknown (ho : IsOption arg) (hh : ¬ AsksHelp arg) (hd : ¬ SetsDebug arg) :
      Decides before arg ⟨2, .empty, "Unknown option: " ++ arg ++ "\n\n" ++ usage ++ "\n"⟩
  | second {file : String} (hf : file ∈ before) (hfile : ¬ IsOption file) (ho : ¬ IsOption arg) :
      Decides before arg ⟨2, .empty, "Only one file can be given" ++ "\n\n" ++ usage ++ "\n"⟩

/-- None of the arguments ends the command. -/
def Undecided (args : List String) : Prop :=
  ∀ before arg after, args = before ++ arg :: after → ∀ z, ¬ Decides before arg z

/-- A debug flag is among the arguments. -/
def wantsDebug (args : List String) : Bool := args.any fun arg => decide (SetsDebug arg)

/-- The first file among the arguments. -/
def givenFile (args : List String) : Option String := args.find? fun arg => decide (¬ IsOption arg)

theorem SetsDebug.isOption {arg : String} (h : SetsDebug arg) : IsOption arg := by
  rcases h with rfl | rfl <;> rfl

theorem AsksHelp.isOption {arg : String} (h : AsksHelp arg) : IsOption arg := by
  rcases h with rfl | rfl <;> rfl

theorem AsksHelp.not_setsDebug {arg : String} (h : AsksHelp arg) : ¬ SetsDebug arg := by
  rcases h with rfl | rfl <;> decide

theorem not_decides_of_debug (before : List String) {arg : String} (hd : SetsDebug arg)
    (z : Completion) : ¬ Decides before arg z := by
  rintro (hh | ⟨-, -, hd'⟩ | ⟨-, -, ho⟩)
  · exact hh.not_setsDebug hd
  · exact hd' hd
  · exact ho hd.isOption

theorem not_decides_of_first {before : List String} {arg : String} (ho : ¬ IsOption arg)
    (hbefore : ∀ file ∈ before, IsOption file) (z : Completion) : ¬ Decides before arg z := by
  rintro (hh | ⟨ho', -, -⟩ | ⟨hf, hfile, -⟩)
  · exact ho hh.isOption
  · exact ho ho'
  · exact hfile (hbefore _ hf)

theorem undecided_nil : Undecided [] := by
  intro before arg after h
  cases before <;> cases h

theorem undecided_concat {args : List String} {arg : String} :
    Undecided (args ++ [arg]) ↔ Undecided args ∧ ∀ z, ¬ Decides args arg z := by
  constructor
  · intro h
    refine ⟨fun before x after hargs => h before x (after ++ [arg]) ?_, h args arg [] rfl⟩
    rw [hargs, List.append_assoc, List.cons_append]
  · rintro ⟨hargs, harg⟩ before x after h
    induction after using List.reverseRecOn with
    | nil =>
      obtain ⟨rfl, rfl⟩ := List.concat_inj.1 (by simpa using h)
      exact harg
    | append_singleton after y _ =>
      rw [← List.cons_append, ← List.append_assoc] at h
      exact hargs before x after (List.append_inj_left' h rfl)

/-- Either no argument ends the command, or there is a first one that does. -/
theorem undecided_or_decides (args : List String) :
    Undecided args ∨ ∃ before arg after z,
      args = before ++ arg :: after ∧ Undecided before ∧ Decides before arg z := by
  induction args using List.reverseRecOn with
  | nil => exact .inl undecided_nil
  | append_singleton args arg ih =>
    rcases ih with hargs | ⟨before, x, after, z, rfl, hbefore, hx⟩
    · by_cases harg : ∃ z, Decides args arg z
      · obtain ⟨z, hz⟩ := harg
        exact .inr ⟨args, arg, [], z, rfl, hargs, hz⟩
      · exact .inl (undecided_concat.2 ⟨hargs, not_exists.1 harg⟩)
    · exact .inr ⟨before, x, after ++ [arg], z, by simp, hbefore, hx⟩

/-! ## The scan -/

namespace Plan

theorem scanArgs_cons (debug : Bool) (path : Option String) (arg : String) (args : List String) :
    scanArgs debug path (arg :: args) =
      if SetsDebug arg then scanArgs true path args
      else if AsksHelp arg then help
      else if IsOption arg then refuse ("Unknown option: " ++ arg)
      else if path.isSome then refuse "Only one file can be given"
      else scanArgs debug (some arg) args :=
  rfl

theorem scanArgs_of_decides {before : List String} {arg : String} {z : Completion}
    (h : Decides before arg z) (debug : Bool) (rest : List String) :
    scanArgs debug (givenFile before) (arg :: rest) = .stop z := by
  cases h with
  | help hh => rw [scanArgs_cons, if_neg hh.not_setsDebug, if_pos hh, help]
  | unknown ho hh hd => rw [scanArgs_cons, if_neg hd, if_neg hh, if_pos ho, refuse]
  | second hf hfile ho =>
    have hd : ¬ SetsDebug arg := fun h => ho h.isOption
    have hh : ¬ AsksHelp arg := fun h => ho h.isOption
    have hsome : (givenFile before).isSome := List.find?_isSome.2 ⟨_, hf, by simpa using hfile⟩
    rw [scanArgs_cons, if_neg hd, if_neg hh, if_neg ho, if_pos hsome, refuse]

/-- An argument that decides nothing is a debug flag or the first file. -/
theorem scanArgs_of_not_decides {before : List String} {arg : String}
    (h : ∀ z, ¬ Decides before arg z) (rest : List String) :
    scanArgs (wantsDebug before) (givenFile before) (arg :: rest) =
      scanArgs (wantsDebug (before ++ [arg])) (givenFile (before ++ [arg])) rest := by
  have hh : ¬ AsksHelp arg := fun hh => h _ (.help hh)
  by_cases hd : SetsDebug arg
  · have hdebug : wantsDebug (before ++ [arg]) = true := by simp [wantsDebug, hd]
    have hfile : givenFile (before ++ [arg]) = givenFile before := by
      simp [givenFile, List.find?_append, hd.isOption]
    rw [scanArgs_cons, if_pos hd, hdebug, hfile]
  · have ho : ¬ IsOption arg := fun ho => h _ (.unknown ho hh hd)
    have hnone : givenFile before = none :=
      List.find?_eq_none.2 fun file hf hfile => h _ (.second hf (by simpa using hfile) ho)
    have hdebug : wantsDebug (before ++ [arg]) = wantsDebug before := by simp [wantsDebug, hd]
    have hfile : givenFile (before ++ [arg]) = some arg := by
      rw [givenFile, List.find?_append, ← givenFile, hnone]
      simp [ho]
    rw [scanArgs_cons, if_neg hd, if_neg hh, if_neg ho, hnone, hdebug, hfile]
    rfl

theorem ofArgs_append {before : List String} (h : Undecided before) (rest : List String) :
    ofArgs (before ++ rest) = scanArgs (wantsDebug before) (givenFile before) rest := by
  induction before using List.reverseRecOn generalizing rest with
  | nil => rfl
  | append_singleton before arg ih =>
    obtain ⟨hbefore, harg⟩ := undecided_concat.1 h
    rw [List.append_assoc, List.singleton_append, ih hbefore, scanArgs_of_not_decides harg]

theorem ofArgs_of_undecided {args : List String} (h : Undecided args) :
    ofArgs args = .evaluate (wantsDebug args) (givenFile args) := by
  simpa [scanArgs] using ofArgs_append h []

end Plan

/-! ## The source -/

/-- A command that runs a source ends as the run of the source did. -/
inductive Completion.Relays (source : String) : Except Fault Finish × Sink → Completion → Prop
  | success (f : Finish) (sink : Sink) : Relays source (.ok f, sink) ⟨0, sink.kept, ""⟩
  | failure (fault : Fault) (sink : Sink) :
      Relays source (.error fault, sink) ⟨1, sink.kept, fault.report source⟩

/-- The command says that it could not read its source, and writes nothing else. -/
def Completion.Unread (source : String) (z : Option Completion) : Prop :=
  ∃ reason, z = some ⟨1, .empty, "Failed to read " ++ source ++ ": " ++ reason ++ "\n"⟩

theorem textOf_toUTF8 (source : String) : textOf source.toUTF8 = .ok source := by
  have hvalid : source.toUTF8.IsValidUTF8 := source.isValidUTF8
  rw [textOf, String.fromUTF8?, dif_pos hvalid]
  rfl

theorem toUTF8_of_textOf {bytes : ByteArray} {source : String} (h : textOf bytes = .ok source) :
    bytes = source.toUTF8 := by
  rw [textOf, String.fromUTF8?] at h
  split_ifs at h with hvalid
  cases h
  rfl

section Conclude

variable (rounds : Nat) (debug : Bool) (path : Option String)

theorem conclude_relays (source : String) :
    Option.Rel (Completion.Relays source)
      (runSource rounds source (path.bind fileName?) debug .unlimited)
      (conclude rounds debug path (.ok source.toUTF8)) := by
  simp only [conclude, Except.bind, textOf_toUTF8]
  rcases runSource rounds source (path.bind fileName?) debug .unlimited with
    _ | ⟨fault | f, sink⟩
  · exact .none
  · exact .some (.failure fault sink)
  · exact .some (.success f sink)

theorem conclude_of_unreadable {contents : Except ReadFailure ByteArray}
    (h : ∀ source : String, contents ≠ .ok source.toUTF8) :
    Completion.Unread (path.getD "standard input") (conclude rounds debug path contents) := by
  cases contents with
  | error failure => exact ⟨failure.text, rfl⟩
  | ok bytes =>
    cases htext : textOf bytes with
    | ok source => exact absurd (congrArg Except.ok (toUTF8_of_textOf htext)) (h source)
    | error failure =>
      simp only [conclude, Except.bind, htext]
      exact ⟨failure.text, rfl⟩

end Conclude

theorem Fault.report_ne_empty (fault : Fault) (source : String) : fault.report source ≠ "" := by
  simp [Fault.report]

theorem Completion.Relays.stderr_iff {source : String} {out : Option (Except Fault Finish × Sink)}
    {z : Completion} (h : Option.Rel (Relays source) out (some z)) :
    z.stderr = "" ↔ z.status = 0 := by
  rcases h with ⟨⟨f, sink⟩ | ⟨fault, sink⟩⟩
  · simp
  · simp [fault.report_ne_empty source]

theorem Completion.Unread.stderr_iff {source : String} {z : Completion}
    (h : Unread source (some z)) : z.stderr = "" ↔ z.status = 0 := by
  obtain ⟨reason, hz⟩ := h
  cases hz
  simp

theorem Decides.stderr_iff {before : List String} {arg : String} {z : Completion}
    (h : Decides before arg z) : z.stderr = "" ↔ z.status = 0 := by
  cases h <;> simp

/-! ## The command -/

namespace Command

variable (c : Command)

theorem run_of_decides {before : List String} {arg : String} {z : Completion}
    (hbefore : Undecided before) (h : Decides before arg z) (rounds : Nat) (after : List String) :
    c.run rounds (before ++ arg :: after) = some z := by
  rw [run, Plan.ofArgs_append hbefore, Plan.scanArgs_of_decides h]

theorem run_of_undecided {args : List String} (h : Undecided args) (rounds : Nat) :
    c.run rounds args =
      conclude rounds (wantsDebug args) (givenFile args) (c.contents (givenFile args)) := by
  rw [run, Plan.ofArgs_of_undecided h]

theorem contents_of_leadsTo {path : String} {parts : List String} {contents : ByteArray}
    (h : c.files.LeadsTo path parts (.file contents)) : c.contents (some path) = .ok contents :=
  FileTree.read_eq_ok_iff.2 ⟨parts, h⟩

theorem stderr_iff_of_run {rounds : Nat} {args : List String} {z : Completion}
    (h : c.run rounds args = some z) : z.stderr = "" ↔ z.status = 0 := by
  rcases undecided_or_decides args with hargs | ⟨before, arg, after, z', rfl, hbefore, hz'⟩
  · rw [c.run_of_undecided hargs] at h
    by_cases hread : ∃ source : String, c.contents (givenFile args) = .ok source.toUTF8
    · obtain ⟨source, hsource⟩ := hread
      have hrelays := conclude_relays rounds (wantsDebug args) (givenFile args) source
      rw [← hsource, h] at hrelays
      exact Completion.Relays.stderr_iff hrelays
    · have hunread := conclude_of_unreadable rounds (wantsDebug args) (givenFile args)
        (not_exists.1 hread)
      rw [h] at hunread
      exact hunread.stderr_iff
  · rw [c.run_of_decides hbefore hz'] at h
    cases h
    exact hz'.stderr_iff

/-- A command without a file runs the standard input. -/
theorem run_stdin {args : List String} (hargs : Undecided args) (hfile : givenFile args = none)
    (rounds : Nat) :
    (∀ source : String, c.stdin = source.toUTF8 →
      Option.Rel (Completion.Relays source)
        (runSource rounds source none (wantsDebug args) .unlimited) (c.run rounds args)) ∧
    ((∀ source : String, c.stdin ≠ source.toUTF8) →
      Completion.Unread "standard input" (c.run rounds args)) := by
  rw [c.run_of_undecided hargs, hfile, contents]
  refine ⟨fun source hsource => ?_, fun h => ?_⟩
  · rw [hsource]
    exact conclude_relays rounds (wantsDebug args) none source
  · exact conclude_of_unreadable rounds (wantsDebug args) none fun source => by simpa using h source

/-- A command with a file runs what the path leads to. -/
theorem run_file {args : List String} (hargs : Undecided args) {path : String}
    (hfile : givenFile args = some path) (rounds : Nat) :
    (∀ parts (source : String), c.files.LeadsTo path parts (.file source.toUTF8) →
      Option.Rel (Completion.Relays source)
        (runSource rounds source parts.getLast? (wantsDebug args) .unlimited)
        (c.run rounds args)) ∧
    ((∀ parts (source : String), ¬ c.files.LeadsTo path parts (.file source.toUTF8)) →
      Completion.Unread path (c.run rounds args)) := by
  rw [c.run_of_undecided hargs, hfile]
  refine ⟨fun parts source h => ?_, fun h => ?_⟩
  · rw [c.contents_of_leadsTo h, ← h.fileName?_eq]
    exact conclude_relays rounds (wantsDebug args) (some path) source
  · refine conclude_of_unreadable rounds (wantsDebug args) (some path) fun source hsource => ?_
    obtain ⟨parts, hleads⟩ := FileTree.read_eq_ok_iff.1 hsource
    exact h parts source hleads

end Command

end ExprScript
