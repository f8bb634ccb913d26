import LispScript.Disk
import LispScript.Eval
import LispScript.Load
import LispScript.Log
import LispScript.Report

/-!
Running programs. A workspace is a machine together with what has been written to the error stream;
a `Job` changes a workspace and may look at files.
-/

namespace LispScript

inductive Notice where
  | log (r : LogRecord)
  | text (t : Text)

structure Workspace where
  machine : Machine := {}
  /-- What has been written to the error stream, the latest first. -/
  notices : List Notice := []
  verbose : Bool := false
  deriving Inhabited

abbrev Job := StateT Workspace Disk

namespace Job

def onDisk {α : Type} (d : Disk α) : Job α :=
  liftM d

def onMachine {α : Type} (f : Machine → α × Machine) : Job α :=
  modifyGet fun w =>
    let (a, machine) := f w.machine
    (a, { w with machine })

def onStore {α : Type} (f : Store → α × Store) : Job α :=
  onMachine fun m =>
    let (a, store) := f m.store
    (a, { m with store })

def store : Job Store :=
  return (← get).machine.store

def print (text : String) : Job Unit :=
  onMachine fun m => ((), { m with output := m.output ++ text })

def println (text : String) : Job Unit :=
  print (text ++ "\n")

def printError (t : Text) : Job Unit :=
  modify fun w => { w with notices := .text t :: w.notices }

def log (level : LogLevel) (message : String) (fields : List (String × String)) : Job Unit :=
  modify fun w =>
    if level = .debug ∧ !w.verbose then w
    else { w with notices := .log { level, message, fields } :: w.notices }

def newRoot : Job Nat :=
  onStore (·.addFrame none)

end Job

/--
The fuel that programs run on: more than any machine has room or time for.
-/
def unbounded : Nat := Nat.pow 2 60

namespace Machine

def run {α : Type} (m : Machine) (r : Run α) : Except Failure α × Machine :=
  match r m with
  | .ok a m => (.ok a, m)
  | .error i m => (.error i.toFailure, m)

def evaluate (m : Machine) (context : Option Context) (frame : Nat) (e : Expr Value) :
    Except Failure Value × Machine :=
  m.run (Run.refuseBreak context (eval context unbounded frame e))

def call (m : Machine) (ref : Nat) (args : Array Value) : Except Failure Value × Machine :=
  m.run (Run.callClosure (eval none unbounded) ref args)

end Machine

namespace Job

def evalForms (context : Context) (frame : Nat) (forms : List (Expr Value)) :
    Job (Except Failure Value) :=
  go .null forms
where
  go (last : Value) : List (Expr Value) → Job (Except Failure Value)
    | [] => return .ok last
    | e :: rest => do
      match ← onMachine (·.evaluate context frame e) with
      | .error f => return .error f
      | .ok v =>
        if (← get).verbose then
          let place := (e.location?.map Location.text).getD "<unknown>"
          log .debug "evaluated form" [("location", place), ("result", v.text (← store))]
        go v rest

def loadForms (forms : List (Expr Literal)) : Job (List (Expr Value)) :=
  onStore (Expr.loadAll forms)

def evalSource (frame : Nat) (file : String) (source : Text) : Job (Except Failure Value) := do
  match Expr.parse file source.chars with
  | .error e => return .error (.ofReadError e source)
  | .ok forms => evalForms { file, source } frame (← loadForms forms)

end Job

namespace Failure

/--
The report of a failure. If its source is not at hand, it is read from its file.
-/
def report (f : Failure) : Disk (List Span) := do
  match f.missingSource? with
  | none => return f.spans f.source
  | some path =>
    match ← Disk.contents path with
    | .ok bytes => return f.spans (Text.ofBytes bytes)
    | .error _ => return f.spans []

def render (f : Failure) : Disk Text :=
  return Report.render (← f.report)

end Failure

end LispScript
