import LispScript.Fault
import LispScript.Grammar
import LispScript.Store

/-!
The machine that programs run on: a store, what has been printed, and the lines still to be read.
A `Run` changes the machine and yields a value, unless it is interrupted; what was changed before an
interruption stays changed.
-/

namespace LispScript

structure Machine where
  store : Store := {}
  output : String := ""
  input : List Text := []
  /-- Is what is printed thrown away? -/
  muted : Bool := false
  deriving Inhabited

inductive Interrupt where
  | breakLoop (location : Option Location)
  | failure (f : Failure)
  | exhausted

abbrev Run := EStateM Interrupt Machine

namespace Run

def fail {α : Type} (fault : Fault) : Run α :=
  throw (.failure { fault })

def inspect {α : Type} (f : Store → α) : Run α :=
  return f (← get).store

def update (f : Store → Store) : Run Unit :=
  modify fun m => { m with store := f m.store }

def create {α : Type} (add : Store → α × Store) : Run α :=
  modifyGet fun m =>
    let (a, store) := add m.store
    (a, { m with store })

def define (frame : Nat) (name : String) (v : Value) : Run Unit := do
  if ← inspect fun s => (s.frame frame).binds name then
    fail (.duplicateName name)
  else
    update (·.bind frame name v)

def assign (frame : Nat) (name : String) (v : Value) : Run Unit := do
  unless ← create (·.assign frame name v) do
    fail (.unknownSymbol name)

def lookup (frame : Nat) (name : String) : Run Value := do
  match ← inspect (·.lookup frame name) with
  | some v => return v
  | none => fail (.unknownSymbol name)

def print (text : String) : Run Unit :=
  modify fun m => if m.muted then m else { m with output := m.output ++ text }

/--
Take the next line of input; after the last one there are only empty lines.
-/
def nextLine : Run Text :=
  modifyGet fun m =>
    match m.input with
    | [] => ([], m)
    | line :: input => (line, { m with input })

def catchBreak (r : Run Value) : Run Value := fun m =>
  match r m with
  | .error (.breakLoop _) m => .ok .null m
  | result => result

def located {α : Type} (context : Option Context) (location : Option Location) (r : Run α) :
    Run α := fun m =>
  match r m with
  | .error (.failure f) m => .error (.failure (f.locate context location)) m
  | result => result

end Run

/--
The value of a literal; a string literal gets a buffer of its own.
-/
def Literal.toValue (l : Literal) (s : Store) : Value × Store :=
  match l with
  | .null => (.null, s)
  | .integer n => (.integer n, s)
  | .real x => (.real x, s)
  | .char c => (.char c, s)
  | .boolean b => (.boolean b, s)
  | .string content => s.addString (.ofList content.toList)

end LispScript
