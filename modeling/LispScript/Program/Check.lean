import LispScript.Program

/-!
Checks of several files at the same time. There is a task for each file, and the tasks take their steps
in any order. What they find out is told when all of them are done, in the order of the files.
-/

namespace LispScript

inductive Task where
  | waiting
  | holding (contents : Except FileError (List UInt8))
  | done

structure Check where
  path : String
  task : Task := .waiting
  failure : Option Failure := none
  count : Nat := 0

namespace Check

def advance (c : Check) : Disk Check :=
  match c.task with
  | .waiting => return { c with task := .holding (← Disk.contents c.path) }
  | .holding (.error e) =>
    return { c with task := .done, failure := some { fault := .unreadableFile e } }
  | .holding (.ok bytes) =>
    match Expr.parse c.path (Text.ofBytes bytes).chars with
    | .error e => return { c with task := .done, failure := some (.ofReadError e []) }
    | .ok forms => return { c with task := .done, count := forms.length }
  | .done => return c

/--
Let the tasks take their steps in the order of a schedule, which holds the position of the task whose
turn it is.
-/
def advanceAll (checks : List Check) : (schedule : List Nat) → Disk (List Check)
  | [] => return checks
  | i :: schedule =>
    match checks[i]? with
    | none => advanceAll checks schedule
    | some c => do advanceAll (checks.set i (← c.advance)) schedule

def tell : List Check → Job Nat
  | [] => return 0
  | c :: rest => do
    match c.failure with
    | some f => do
      Job.printError ((← Job.onDisk f.render) ++ Text.ofString "\n")
      return (← tell rest) + 1
    | none => do
      Job.println s!"{c.path}: {c.count} forms"
      tell rest

end Check

def Job.checkTogether (schedule : List Nat) (paths : List String) : Job (Except Problem Unit) := do
  let checks ← onDisk (Check.advanceAll (paths.map fun path => { path }) schedule)
  let failed ← Check.tell checks
  return if failed = 0 then .ok () else .error (.unreadable failed paths.length)

end LispScript
