import LispScript.CommandLine
import LispScript.Session.Dialogue
import LispScript.Text.Terminal

/-!
Executions of the program: what it does with its arguments, its input and the files, as a function
of them.
-/

namespace LispScript

structure Invocation where
  args : List String
  input : List UInt8 := []
  historyPath : String

structure Ending where
  status : UInt32
  output : String
  errors : Text
  history : Option Text := none

namespace Execution

def versionText : String := "quill version v0.1.0"

def helpText : String :=
  "Usage:\n  quill [flags] [file]\n  quill check [file...]"

def errorText (w : Workspace) : Text :=
  w.notices.reverse.flatMap fun
    | .log r => Text.ofString (r.line ++ "\n")
    | .text t => t

variable (decode : Config.Decoder)

def obey (i : Invocation) (c : CommandLine) : Job (Except Problem (Option Text)) := do
  match c.command with
  | .version => do
    Job.println versionText
    return .ok none
  | .help => do
    Job.println helpText
    return .ok none
  | .check paths => return (← Job.check paths).map fun _ => none
  | .run path => do
    Dialogue.setInput (Text.streamLines (Text.ofBytes i.input))
    return (← Job.runPath decode path c.debug).map fun _ => none
  | .session => do
    Dialogue.setInput ((Chunk.ofBytes i.input).map Chunk.text)
    Dialogue.run decode i.historyPath c.debug

/--
A line as it is shown without styling. A control sequence that never ends takes its end along.
-/
def plainLine (t : Text) : Text :=
  Text.strip (t ++ Text.ofString "\n")

def conclude (r : Except Problem (Option Text)) : Job (UInt32 × Option Text) := do
  match r with
  | .ok history => return (0, history)
  | .error p => do
    Job.printError (plainLine (← Job.onDisk p.render))
    return (1, none)

def run (i : Invocation) : Disk Ending := do
  match CommandLine.parse i.args with
  | .error e =>
    return { status := 1, output := "", errors := plainLine (Text.ofString e.message) }
  | .ok c => do
    let job := do conclude (← obey decode i c)
    let ((status, history), w) ← job.run { verbose := c.debug }
    return { status, history, output := w.machine.output, errors := errorText w }

end Execution

end LispScript
