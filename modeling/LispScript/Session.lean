import LispScript.Program

/-!
Interactive sessions. A session evaluates what it is given in one frame and shows the values; inputs
that start with a colon are commands to the session itself.
-/

namespace LispScript

inductive Tint where
  | result
  | error
  | dim
  | title
  deriving DecidableEq, Repr

namespace Tint

def sequence : Tint → String
  | result => "\x1b[38;5;42m"
  | error => "\x1b[38;5;196m"
  | dim => "\x1b[38;5;241m"
  | title => "\x1b[1;38;5;63m"

def paint (t : Tint) (s : String) : String :=
  t.sequence ++ s ++ "\x1b[m"

end Tint

namespace Session

inductive Command where
  | help
  | load (path : Text)
  | env
  | reset
  | debug
  | leave
  | empty
  | badLoad
  | unknown (name : String)
  deriving DecidableEq, Repr

namespace Command

def descriptions : List (String × String) :=
  [("help", "Show this help"),
    ("load", "Evaluate a file into the session: :load path"),
    ("env", "List the names bound at top level"),
    ("reset", "Start over with a fresh environment"),
    ("debug", "Toggle dumping parsed forms before evaluation"),
    ("exit", "Leave the REPL (also :quit)")]

/--
The command that words stand for. Only the path of a file to load matters after the first.
-/
def ofWords : List Text → Command
  | [] => empty
  | name :: args =>
    match name.toString with
    | "help" => help
    | "exit" | "quit" => leave
    | "reset" => reset
    | "debug" => debug
    | "load" =>
      match args with
      | [path] => load path
      | _ => badLoad
    | "env" => env
    | name => unknown name

def helpLines : List String :=
  let width := descriptions.foldl (fun w d => max w d.1.length) 0
  descriptions.map (fun (name, description) =>
    s!"  :{name}" ++ String.ofList (List.replicate (width - name.length) ' ') ++
      s!" - {description}") ++
    ["Type Quill forms to evaluate them. Unfinished forms continue on the next line."]

end Command

inductive Input where
  | blank
  | command (c : Command)
  | source

def Input.ofText (t : Text) : Input :=
  match t.trim with
  | [] => blank
  | .char ':' :: rest => command (.ofWords (Text.words rest))
  | _ => source

def fileName : String := "<repl>"

end Session

structure Session where
  config : Option (String × Config) := none
  frame : Nat
  showsForms : Bool := false

namespace Session

def say (tint : Tint) (s : String) : Job Unit :=
  Job.println (tint.paint s)

def complain (p : Problem) : Job Unit := do
  match p.failure? with
  | some f@{ origin := some _, .. } => Job.printError (← Job.onDisk f.render)
  | _ => Job.printError (Text.ofString (Tint.error.paint ("Error: " ++ p.message) ++ "\n"))

def showOutcome (r : Except Failure Value) : Job Unit := do
  match r with
  | .ok v => say .result ("=> " ++ v.text (← Job.store))
  | .error f => complain (.failure f)

/--
Go on in a new frame, with the prelude in it as far as it can be evaluated.
-/
def restart (s : Session) : Job (Session × Except Problem Unit) := do
  let s := { s with frame := ← Job.newRoot }
  match s.config with
  | none => return (s, .ok ())
  | some (path, config) => return (s, ← Job.loadPrelude s.frame (Project.preludePaths path config))

def start (config : Option (String × Config)) (showsForms : Bool) :
    Job (Except Problem Session) := do
  let (s, r) ← restart { config, frame := 0, showsForms }
  return r.map fun _ => s

def eval (s : Session) (source : Text) : Job Unit := do
  if s.showsForms then
    match Expr.parse fileName source.chars with
    | .ok forms => Job.showForms forms
    | .error _ => pure ()
  showOutcome (← Job.evalSource s.frame fileName source)

def obey (s : Session) : Command → Job (Option Session)
  | .leave => return none
  | .help => do
    Job.println "Available commands:"
    Command.helpLines.forM (say .dim)
    return some s
  | .load path => do
    showOutcome (← Job.loadFile s.frame path)
    return some s
  | .env => do
    let store ← Job.store
    (store.bindings s.frame).forM fun (name, v) =>
      Job.println (name ++ " " ++ Tint.dim.paint (v.text store))
    return some s
  | .reset => do
    let (s, r) ← s.restart
    match r with
    | .ok _ => say .result "Environment reset."
    | .error p => complain p
    return some s
  | .debug => do
    let s := { s with showsForms := !s.showsForms }
    let status := if s.showsForms then "enabled" else "disabled"
    say .result s!"Debug mode {status}."
    return some s
  | .empty => do
    say .error "empty command"
    return some s
  | .badLoad => do
    say .error "usage: :load path"
    return some s
  | .unknown name => do
    say .error s!"unknown command :{name}. Type :help for a list."
    return some s

def handle (s : Session) (input : Text) : Job (Option Session) := do
  match Input.ofText input with
  | .blank => return some s
  | .command c => s.obey c
  | .source => do
    s.eval input
    return some s

def endsWord (g : Glyph) : Bool :=
  [.char '(', .char ')', .char ' ', .char '\t', .char '\n'].contains g

def begins (t : Text) (name : String) : Bool :=
  t.bytes.isPrefixOf (Text.ofString name).bytes

/--
How a line can go on: commands after a colon, else the keywords and names in `names` that the last word
is the beginning of.
-/
def completions (names : List String) (line : Text) : List Text :=
  if line.head? = some (.char ':') ∧ !line.contains (.char ' ') then
    ((Command.descriptions.map fun d => ":" ++ d.1).filter (begins line)).map Text.ofString
  else
    let word := (line.reverse.takeWhile (!endsWord ·)).reverse
    let before := line.take (line.length - word.length)
    if word.isEmpty then []
    else ((keywords ++ names).filter (begins word)).eraseDups.map (before ++ Text.ofString ·)

end Session

end LispScript
