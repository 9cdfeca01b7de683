import ExprScript.FileTree
import ExprScript.Report
import ExprScript.Run

/-!
# The command line

The arguments decide what is run. The first one that asks for help, is no known option or names a
second file ends the command at once; otherwise a file or the standard input is run.

* `Plan.ofArgs`: what the arguments ask for.
* `conclude`: how a command that runs a source ends.
* `Command.run`: the whole command, over the files and the standard input that it may read.
-/

namespace ExprScript

/-- How a command ended. -/
structure Completion where
  status : UInt32
  stdout : ByteArray
  stderr : String

/-- The text that explains the command. -/
def usage : String :=
  "Usage: stint [FILE] [--debug|-d] [--help|-h]\n\n" ++
  "Evaluates FILE, or standard input when no file is given.\n\n" ++
  "Options:\n" ++
  "  -d, --debug   Print the program, final value and final environment\n" ++
  "  -h, --help    Print this message\n\n" ++
  "Set RUST_LOG (e.g. RUST_LOG=stint=trace) to enable logging on stderr."

/-- What a command does after its arguments are known. -/
inductive Plan where
  /-- End at once. -/
  | stop (completion : Completion)
  /-- Run the file, or the standard input if there is none. -/
  | evaluate (debug : Bool) (path : Option String)

namespace Plan

/-- Show the usage. -/
def help : Plan := stop ⟨0, (usage ++ "\n").toUTF8, ""⟩

/-- Refuse the arguments. -/
def refuse (message : String) : Plan := stop ⟨2, .empty, message ++ "\n\n" ++ usage ++ "\n"⟩

/-- What the arguments ask for, after some that set the debug flag and named a file. -/
def scanArgs (debug : Bool) (path : Option String) : List String → Plan
  | [] => evaluate debug path
  | arg :: args =>
    if arg = "-d" ∨ arg = "--debug" then scanArgs true path args
    else if arg = "-h" ∨ arg = "--help" then help
    else if arg.toList.head? = some '-' then refuse ("Unknown option: " ++ arg)
    else if path.isSome then refuse "Only one file can be given"
    else scanArgs debug (some arg) args

/-- What the arguments ask for. -/
def ofArgs (args : List String) : Plan := scanArgs false none args

end Plan

/-- The text that the bytes spell. -/
def textOf (bytes : ByteArray) : Except ReadFailure String :=
  match String.fromUTF8? bytes with
  | some s => .ok s
  | none => .error .notText

/-- How a command ends that runs what it could or could not read. -/
def conclude (rounds : Nat) (debug : Bool) (path : Option String)
    (contents : Except ReadFailure ByteArray) : Option Completion :=
  match contents.bind textOf with
  | .error failure =>
    let source := path.getD "standard input"
    some ⟨1, .empty, "Failed to read " ++ source ++ ": " ++ failure.text ++ "\n"⟩
  | .ok source =>
    (runSource rounds source (path.bind fileName?) debug .unlimited).map fun
      | (.ok _, sink) => ⟨0, sink.kept, ""⟩
      | (.error fault, sink) => ⟨1, sink.kept, fault.report source⟩

/-- What a command may read besides its arguments. -/
structure Command where
  files : FileTree
  stdin : ByteArray

/-- The bytes of the file, or of the standard input if there is none. -/
def Command.contents (c : Command) : Option String → Except ReadFailure ByteArray
  | some path => c.files.read path
  | none => .ok c.stdin

/-- Run the command with these arguments. -/
def Command.run (rounds : Nat) (c : Command) (args : List String) : Option Completion :=
  match Plan.ofArgs args with
  | .stop completion => some completion
  | .evaluate debug path => conclude rounds debug path (c.contents path)

end ExprScript
