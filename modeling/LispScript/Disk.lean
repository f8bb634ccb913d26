import LispScript.Disk.Path
import LispScript.FileError

/-!
Access to files. A `Disk` computation asks for files and goes on with the answers; with `Files.run` they come
from anything that answers each question in one way, such as a tree of files.
-/

namespace LispScript

inductive EntryKind where
  | file
  | directory
  deriving DecidableEq, Repr

inductive Disk (α : Type) where
  | done (a : α)
  | stat (path : Text) (next : Except FileError EntryKind → Disk α)
  | read (path : Text) (next : Except FileError (List UInt8) → Disk α)
  | current (next : String → Disk α)

namespace Disk

def bind {α β : Type} (d : Disk α) (f : α → Disk β) : Disk β :=
  match d with
  | done a => f a
  | stat path next => stat path fun r => (next r).bind f
  | read path next => read path fun r => (next r).bind f
  | current next => current fun dir => (next dir).bind f

instance : Monad Disk where
  pure := done
  bind := bind

def entry (path : String) : Disk (Except FileError EntryKind) :=
  stat (Text.ofString path) done

def contents (path : String) : Disk (Except FileError (List UInt8)) :=
  read (Text.ofString path) done

def currentDirectory : Disk String :=
  current done

end Disk

structure Files where
  stat : Text → Except FileError EntryKind
  read : Text → Except FileError (List UInt8)
  current : String
  /-- The empty path leads to no file. -/
  read_empty : ∃ e, read [] = .error e

namespace Files

variable {α β : Type} (files : Files)

def run : Disk α → α
  | .done a => a
  | .stat path next => run (next (files.stat path))
  | .read path next => run (next (files.read path))
  | .current next => run (next files.current)

@[simp]
theorem run_pure (a : α) : files.run (pure a) = a := rfl

@[simp]
theorem run_bind (d : Disk α) (f : α → Disk β) : files.run (d >>= f) = files.run (f (files.run d)) := by
  show files.run (d.bind f) = _
  induction d with
  | done a => rfl
  | stat path next ih => simp only [Disk.bind, run, ih]
  | read path next ih => simp only [Disk.bind, run, ih]
  | current next ih => simp only [Disk.bind, run, ih]

end Files

inductive FileTree where
  | file (contents : List UInt8)
  | directory (entries : List (String × FileTree))

namespace FileTree

def kind : FileTree → EntryKind
  | file _ => .file
  | directory _ => .directory

def longestName : Nat := 255

def longestPath : Nat := 4095

/--
Go into an entry of a directory; the trees from there up to the root are in `trail`. Names hold no stray
bytes, so that a part with one is no name.
-/
def enter (trail : List FileTree) (part : Text) : Except FileProblem (List FileTree) :=
  match trail with
  | directory entries :: above =>
    if part = [] ∨ part = Text.ofString "." then .ok trail
    else if part = Text.ofString ".." then .ok (if above.isEmpty then trail else above)
    else if longestName < part.bytes.length then .error .nameTooLong
    else
      match entries.find? fun e => Text.ofString e.1 = part with
      | some (_, t) => .ok (t :: trail)
      | none => .error .notFound
  | _ => .error .notDirectory

def follow (trail : List FileTree) (path : Text) : Except FileProblem (List FileTree) :=
  (path.splitOn (.char '/')).foldlM enter trail

def walk (root : FileTree) (current : String) (path : Text) : Except FileProblem FileTree := do
  if path = [] then
    .error .notFound
  else if path.contains (.char '\x00') then
    .error .invalidArgument
  else if longestPath < path.bytes.length then
    .error .nameTooLong
  else
    let start ←
      if path.head? = some (.char '/') then pure [root]
      else follow [root] (Text.ofString current)
    match ← follow start path with
    | t :: _ => .ok t
    | [] => .error .notFound

def stat (root : FileTree) (current : String) (path : Text) : Except FileError EntryKind :=
  match root.walk current path with
  | .ok t => .ok t.kind
  | .error problem => .error { access := .stat, path, problem }

/--
Opening a directory is possible, reading it is not.
-/
def read (root : FileTree) (current : String) (path : Text) : Except FileError (List UInt8) :=
  match root.walk current path with
  | .ok (file bytes) => .ok bytes
  | .ok (directory _) => .error { access := .readFile, path, problem := .isDirectory }
  | .error problem => .error { access := .openFile, path, problem }

def files (root : FileTree) (current : String) : Files where
  stat := root.stat current
  read := root.read current
  current := current
  read_empty := ⟨_, rfl⟩

def insert (tree : FileTree) (path : List String) (t : FileTree) : FileTree :=
  match path with
  | [] => t
  | part :: rest =>
    let entries :=
      match tree with
      | directory entries => entries
      | file _ => []
    let old := (entries.lookup part).getD (directory [])
    directory ((part, old.insert rest t) :: entries.filter (·.1 != part))

end FileTree

def Files.none : Files :=
  (FileTree.directory []).files "/"

end LispScript
