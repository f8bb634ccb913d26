import LispScript.Session
import LispScript.Session.History

/-!
Dialogues: a session that takes its inputs from the lines of a stream, with a prompt before each of
them. An input goes on over several lines as long as it ends in the middle of a form.
-/

namespace LispScript

namespace Dialogue

def defaultPrompt : String := "quill> "

def continuationPrompt : String := "   ... "

def isUnfinished (input : Text) : Bool :=
  match Session.Input.ofText input with
  | .source =>
    match Expr.parse Session.fileName input.chars with
    | .ok _ => false
    | .error e => e.isIncomplete
  | _ => false

def extend (input line : Text) : Text :=
  if input.isEmpty then line else input ++ .char '\n' :: line

structure Reading where
  /-- The input; there is none if the stream ends before it does. -/
  input : Option Text
  prompts : Nat
  rest : List Text
  deriving DecidableEq

def read (input : Text) : List Text → Reading
  | [] => { input := none, prompts := 1, rest := [] }
  | line :: rest =>
    let input := extend input line
    if isUnfinished input then
      let r := read input rest
      { r with prompts := r.prompts + 1 }
    else
      { input := some input, prompts := 1, rest }

def promptText (prompt : String) (count : Nat) : String :=
  prompt ++ String.join (List.replicate (count - 1) continuationPrompt)

def setInput (lines : List Text) : Job Unit :=
  Job.onMachine fun m => ((), { m with input := lines })

def nextInput (prompt : String) : Job (Option Text) := do
  let r := read [] (← get).machine.input
  Job.print (promptText prompt r.prompts)
  setInput r.rest
  return r.input

def promptFor (config : Option Config) : String :=
  match config with
  | some c => if c.prompt = "" then defaultPrompt else c.prompt
  | none => defaultPrompt

def handleInputs (prompt : String) (history : History) (s : Session) : (most : Nat) → Job History
  | 0 => return history
  | most + 1 => do
    match ← nextInput prompt with
    | none => do
      Job.println ""
      return history
    | some input => do
      let history := if input.trim.isEmpty then history else history.add (History.entry input)
      match ← s.handle input with
      | none => return history
      | some s => handleInputs prompt history s most

/--
Hold a dialogue. Each input takes a line or more, and the end of the stream is one step more.
-/
def hold (prompt : String) (history : History) (s : Session) : Job History := do
  Job.println (Tint.title.paint "Quill REPL" ++ " " ++ Tint.dim.paint "- type :help for commands")
  handleInputs prompt history s ((← get).machine.input.length + 1)

def loadHistory (path : String) : Job History := do
  let warn (reason : String) : Job Unit :=
    Job.log .debug "failed to read history" [("file", path), ("error", reason)]
  match ← Job.onDisk (Disk.contents path) with
  | .error e => do
    if e.access = .readFile then
      warn e.message
    return {}
  | .ok bytes => do
    let (history, defect) := History.ofBytes bytes
    if let some d := defect then
      warn d.message
    return history

def saveHistory (path : String) (history : History) : Job (Option Text) := do
  match ← Job.onDisk (Disk.entry path) with
  | .ok .directory => do
    let e : FileError :=
      { access := .openFile, path := Text.ofString path, problem := .isDirectory }
    Job.log .debug "failed to save history" [("file", path), ("error", e.message)]
    return none
  | _ => return some history.text

/--
Hold a dialogue about the project of the current directory. The result is the new text of the history
file, if one is kept.
-/
def run (decode : Config.Decoder) (historyPath : String) (showsForms : Bool) :
    Job (Except Problem (Option Text)) := do
  let config ←
    match ← Project.configFor decode (← Job.onDisk Disk.currentDirectory) with
    | .ok config => pure config
    | .error (path, e) => do
      Job.log .warn "failed to load project config" [("error", (Problem.config path e).message)]
      pure none
  match ← Session.start config showsForms with
  | .error p => return .error p
  | .ok s =>
    let settings := config.map Prod.snd
    let prompt := promptFor settings
    if settings.any Config.disableHistory then do
      let _ ← hold prompt {} s
      return .ok none
    else do
      let history ← hold prompt (← loadHistory historyPath) s
      return .ok (← saveHistory historyPath history)

end Dialogue

end LispScript
