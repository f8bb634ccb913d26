import LispScript.Execution
import LispScript.Toml.Config

/-!
The program as a process: its arguments, its streams and the files of the machine it runs on.
-/

namespace LispScript

namespace Host

def problemOf : IO.Error → FileProblem
  | .noFileOrDirectory .. => .notFound
  | .inappropriateType _ code details =>
    if code = 21 then .isDirectory else if code = 20 then .notDirectory else .other details
  | .invalidArgument .. => .invalidArgument
  | e => .other (toString e)

def contents (path : Text) : IO (Except FileProblem (List UInt8)) := do
  if !path.isValid then
    return .error .notFound
  try
    return .ok (← IO.FS.readBinFile path.toString).toList
  catch e =>
    return .error (problemOf e)

def stat (path : Text) : IO (Except FileError EntryKind) := do
  match ← contents path with
  | .ok _ => return .ok .file
  | .error .isDirectory => return .ok .directory
  | .error problem => return .error { access := .stat, path, problem }

def read (path : Text) : IO (Except FileError (List UInt8)) := do
  match ← contents path with
  | .ok bytes => return .ok bytes
  | .error .isDirectory => return .error { access := .readFile, path, problem := .isDirectory }
  | .error problem => return .error { access := .openFile, path, problem }

def perform {α : Type} : Disk α → IO α
  | .done a => return a
  | .stat path next => do perform (next (← stat path))
  | .read path next => do perform (next (← read path))
  | .current next => do perform (next (← IO.currentDir).toString)

def historyPath : IO String := do
  let data ←
    match ← IO.getEnv "XDG_DATA_HOME" with
    | some dir => pure dir
    | none => pure (Path.join ((← IO.getEnv "HOME").getD "/") ".local/share")
  return Path.join data "quill/history"

partial def readToEnd (stream : IO.FS.Stream) (bytes : ByteArray) : IO ByteArray := do
  let more ← stream.read 65536
  if more.isEmpty then return bytes else readToEnd stream (bytes ++ more)

/--
Run the program. All of its input is read before it starts.
-/
def run (args : List String) : IO UInt32 := do
  let historyPath ← historyPath
  let input ← readToEnd (← IO.getStdin) .empty
  let ending ← perform (Execution.run Toml.decodeConfig { args, input := input.toList, historyPath })
  (← IO.getStdout).putStr ending.output
  (← IO.getStderr).write (ByteArray.mk ending.errors.bytes.toArray)
  if let some history := ending.history then
    IO.FS.createDirAll (Path.directory historyPath)
    IO.FS.writeBinFile historyPath (ByteArray.mk history.bytes.toArray)
  return ending.status

end Host

end LispScript

def main (args : List String) : IO UInt32 :=
  LispScript.Host.run args
