import LispScript.Text.Glyph

/-!
What can go wrong with files, in the words of the operating system.
-/

namespace LispScript

inductive FileProblem where
  | notFound
  | notDirectory
  | isDirectory
  | nameTooLong
  | invalidArgument
  | other (reason : String)
  deriving DecidableEq, Repr

def FileProblem.message : FileProblem → String
  | notFound => "no such file or directory"
  | notDirectory => "not a directory"
  | isDirectory => "is a directory"
  | nameTooLong => "file name too long"
  | invalidArgument => "invalid argument"
  | other reason => reason

inductive FileAccess where
  | openFile
  | readFile
  | stat
  deriving DecidableEq, Repr

def FileAccess.text : FileAccess → String
  | openFile => "open"
  | readFile => "read"
  | stat => "stat"

structure FileError where
  access : FileAccess
  path : Text
  problem : FileProblem
  deriving DecidableEq, Repr

def FileError.message (e : FileError) : String :=
  s!"{e.access.text} {e.path.toString}: {e.problem.message}"

end LispScript
