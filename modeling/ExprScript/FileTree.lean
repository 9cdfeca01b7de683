/-!
# Files

A file tree is what a directory holds. A path is followed from the directory, one part after the
other, and reading the file at its end may fail.

* `pathParts`: the parts of a path between its slashes; `fileName?`: the last one that names a file.
* `FileTree.read`: the contents of the file that a path leads to.
* `ReadFailure.text`: why a text could not be read.
-/

namespace ExprScript

/-- Why a text could not be read. -/
inductive ReadFailure where
  /-- The system refused, for a reason with a number. -/
  | system (reason : String) (number : Nat)
  /-- The bytes are no text in UTF-8. -/
  | notText
  deriving DecidableEq, Repr

namespace ReadFailure

/-- The path leads nowhere. -/
def missing : ReadFailure := system "No such file or directory" 2

/-- The path goes on after a file. -/
def notDirectory : ReadFailure := system "Not a directory" 20

/-- The path leads to a directory. -/
def isDirectory : ReadFailure := system "Is a directory" 21

/-- The words for a failure. -/
def text : ReadFailure → String
  | system reason number => reason ++ " (os error " ++ Nat.repr number ++ ")"
  | notText => "stream did not contain valid UTF-8"

end ReadFailure

/-- The parts of a text between its slashes. -/
def splitSlashes : List Char → List (List Char)
  | [] => [[]]
  | c :: cs =>
    if c = '/' then [] :: splitSlashes cs
    else
      match splitSlashes cs with
      | [] => [[c]]
      | part :: parts => (c :: part) :: parts

/-- The parts of a path. -/
def pathParts (path : String) : List String := (splitSlashes path.toList).map String.ofList

/-- The part stays in the directory it is followed from. -/
def staysHere (part : String) : Bool := part = "" || part = "."

/-- The name of the file at the end of a path, if it ends in one. -/
def fileName? (path : String) : Option String :=
  match ((pathParts path).filter fun part => !staysHere part).getLast? with
  | some part => if part = ".." then none else some part
  | none => none

/-- The files below a directory, each with the parts of its path. -/
structure FileTree where
  files : List (List String × ByteArray)

/-- Where a path leads. -/
inductive Place where
  | file (contents : ByteArray)
  /-- The directory with this path inside the tree. -/
  | directory (path : List String)
  /-- A directory above the tree. -/
  | outside

namespace FileTree

/-- The tree with these files, given by their paths. -/
def ofPaths (files : List (String × ByteArray)) : FileTree :=
  ⟨files.map fun (path, contents) => (pathParts path, contents)⟩

/-- What has this path inside the tree. -/
def find? (t : FileTree) (path : List String) : Option Place :=
  match t.files.lookup path with
  | some contents => some (.file contents)
  | none =>
    if t.files.any fun f => path.isPrefixOf f.1 then some (.directory path) else none

/-- One step along a path. -/
def step (t : FileTree) (place : Place) (part : String) : Except ReadFailure Place :=
  match place with
  | .file _ => .error .notDirectory
  | .outside => if staysHere part || part = ".." then .ok .outside else .error .missing
  | .directory path =>
    if staysHere part then .ok place
    else if part = ".." then .ok (if path = [] then .outside else .directory path.dropLast)
    else
      match t.find? (path ++ [part]) with
      | some next => .ok next
      | none => .error .missing

/-- The contents of the file that a path leads to. A path from the root leaves the tree. -/
def read (t : FileTree) (path : String) : Except ReadFailure ByteArray :=
  if path = "" then .error .missing
  else do
    let start := if path.toList.head? = some '/' then Place.outside else .directory []
    match ← (pathParts path).foldlM t.step start with
    | .file contents => .ok contents
    | _ => .error .isDirectory

end FileTree

end ExprScript
