import ExprScript.Command

/-!
# The program

Reads the arguments, the file or the standard input, runs the command and writes what came of it.
-/

namespace ExprScript

/-- More rounds than a loop can run. -/
def roundLimit : Nat := 1 <<< 62

/-- The failure with this number, which the system may report with either sign. -/
def failureOf (number : UInt32) (reason : String) : ReadFailure :=
  match (min number (0 - number)).toNat with
  | 2 => .missing
  | 13 => .system "Permission denied" 13
  | 20 => .notDirectory
  | 21 => .isDirectory
  | n => .system reason n

/-- The failure that the system reports. -/
def systemFailure : IO.Error → ReadFailure
  | .noFileOrDirectory _ number reason => failureOf number reason
  | .inappropriateType _ number reason => failureOf number reason
  | .permissionDenied _ number reason => failureOf number reason
  | .invalidArgument _ number reason => failureOf number reason
  | .resourceExhausted _ number reason => failureOf number reason
  | .otherError number reason => failureOf number reason
  | e => .system e.toString 0

/-- Everything that is left in a stream. -/
partial def drain (stream : IO.FS.Stream) (bytes : ByteArray) : IO ByteArray := do
  let more ← stream.read 65536
  if more.isEmpty then return bytes else drain stream (bytes ++ more)

/-- The bytes of the file, or of the standard input if there is none. -/
def readContents (path : Option String) : IO (Except ReadFailure ByteArray) := do
  let action := match path with
    | some path => IO.FS.readBinFile path
    | none => do drain (← IO.getStdin) .empty
  match ← action.toBaseIO with
  | .ok bytes => return .ok bytes
  | .error e => return .error (systemFailure e)

/-- How the command ends. -/
def complete (args : List String) : IO (Option Completion) := do
  match Plan.ofArgs args with
  | .stop completion => return some completion
  | .evaluate debug path => return conclude roundLimit debug path (← readContents path)

end ExprScript

def main (args : List String) : IO UInt32 := do
  match ← ExprScript.complete args with
  | some completion =>
    let stdout ← IO.getStdout
    stdout.write completion.stdout
    stdout.flush
    (← IO.getStderr).putStr completion.stderr
    return completion.status
  | none => return 1
