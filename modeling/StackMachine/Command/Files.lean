/-!
# Files

The files that a command can read: a tree of directories, and the reasons why a path cannot be
read.
-/

namespace StackMachine.Command

/-- Why a path cannot be read. -/
inductive ReadError
  /-- Nothing is there. -/
  | notFound
  /-- The path leads through something that is no directory. -/
  | notDirectory
  /-- The path leads to a directory. -/
  | isDirectory
  /-- The path, or a name on it, is longer than the system allows. -/
  | nameTooLong
  /-- Another reason, in the words of the system. -/
  | other (reason : String)
  deriving DecidableEq, Repr

/-- The text of a reason. -/
def ReadError.message : ReadError → String
  | .notFound => "No such file or directory (os error 2)"
  | .notDirectory => "Not a directory (os error 20)"
  | .isDirectory => "Is a directory (os error 21)"
  | .nameTooLong => "File name too long (os error 36)"
  | .other reason => reason

/-- A tree of files below a working directory.  Every entry has a path, given as the names along
    it, and is a file with its bytes or a directory. -/
structure FileTree where
  entries : List (List String × Option (List UInt8))

/-- What is at a place in a tree. -/
inductive Node
  | file (bytes : List UInt8)
  | directory
  | absent

namespace FileTree

/-- What is at the end of the given names.  The directories above an entry are there too. -/
def node (t : FileTree) (names : List String) : Node :=
  match t.entries.find? fun (path, _) => path == names with
  | some (_, some bytes) => .file bytes
  | some (_, none) => .directory
  | none =>
    if names.isEmpty || t.entries.any fun (path, _) => names.isPrefixOf path then .directory
    else .absent

/-- The longest name of a file or directory, in bytes. -/
def maxNameSize : Nat := 255

/-- The longest path, in bytes. -/
def maxPathSize : Nat := 4095

/-- Whether a step of a path leads to no new name. -/
def isDotStep (step : String) : Bool := step == "" || step == "." || step == ".."

/-- Why a name cannot be found in a directory that lacks it. -/
def missing (name : String) : ReadError :=
  if maxNameSize < name.utf8ByteSize then .nameTooLong else .notFound

/-- Follows the steps of a path outside the tree, where only directories on the way to the tree
    are known to be. -/
def followOutside (steps : List String) : Except ReadError (List UInt8) :=
  match steps.find? fun step => !isDotStep step with
  | some name => .error (missing name)
  | none => .error .isDirectory

/-- Follows the steps of a path from a place, which is given with its last name first. -/
def follow (t : FileTree) (place : List String) : List String → Except ReadError (List UInt8)
  | [] => match t.node place.reverse with
    | .file bytes => .ok bytes
    | .directory => .error .isDirectory
    | .absent => .error (missing (place.headD ""))
  | step :: rest => match t.node place.reverse with
    | .file _ => .error .notDirectory
    | .absent => .error (missing (place.headD ""))
    | .directory =>
      if step = "" ∨ step = "." then follow t place rest
      else if step = ".." then
        match place with
        | [] => followOutside rest
        | _ :: outer => follow t outer rest
      else follow t (step :: place) rest

/-- The parts of a path between slashes, in front of which some characters have been read. -/
def pathSteps (since : List Char) : List Char → List String
  | [] => [String.ofList since.reverse]
  | c :: rest =>
    if c = '/' then String.ofList since.reverse :: pathSteps [] rest
    else pathSteps (c :: since) rest

/-- The bytes of the file at a path.  The length of the path is looked at first.  The empty path
    leads nowhere, and a path that starts with a slash leads outside the tree. -/
def read (t : FileTree) (path : String) : Except ReadError (List UInt8) :=
  if maxPathSize < path.utf8ByteSize then .error .nameTooLong
  else match pathSteps [] path.toList with
    | [""] => .error .notFound
    | "" :: rest => followOutside rest
    | steps => t.follow [] steps

end FileTree

end StackMachine.Command
