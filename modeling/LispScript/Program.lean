import LispScript.Outline
import LispScript.Project

/-!
Programs: source files that are run on their own, after the prelude of their project, or that are
only checked.
-/

namespace LispScript

namespace Job

def showForms (forms : List (Expr Literal)) : Job Unit :=
  println (Outline.ofProgram forms).render

/--
A failure of a program: one that is not located is introduced as an evaluation error.
-/
def programProblem (f : Failure) : Problem :=
  if f.origin.isSome then .failure f else .evaluation f

def runProgram (frame : Nat) (path : String) (showsForms : Bool) : Job (Except Problem Unit) := do
  match ← onDisk (Disk.contents path) with
  | .error e => return .error (.failure { fault := .unreadableFile e })
  | .ok bytes =>
    let source := Text.ofBytes bytes
    match Expr.parse path source.chars with
    | .error e => return .error (.failure (.ofReadError e source))
    | .ok forms => do
      if showsForms then
        showForms forms
      match ← evalForms { file := path, source } frame (← loadForms forms) with
      | .error f => return .error (programProblem f)
      | .ok v => do
        log .debug "final program result" [("result", v.text (← store))]
        return .ok ()

variable (decode : Config.Decoder)

def runFile (path : String) (showsForms : Bool) : Job (Except Problem Unit) := do
  let frame ← newRoot
  match ← Project.configFor decode (Path.directory path) with
  | .error (configPath, e) => return .error (.projectConfig configPath e)
  | .ok none => runProgram frame path showsForms
  | .ok (some (configPath, config)) =>
    match ← loadPrelude frame (Project.preludePaths configPath config) with
    | .error p => return .error p
    | .ok _ => runProgram frame path showsForms

def runPath (path : String) (showsForms : Bool) : Job (Except Problem Unit) := do
  match ← onDisk (Disk.entry path) with
  | .error e => return .error (.access path e)
  | .ok .directory => return .error (.directory path)
  | .ok .file => runFile decode path showsForms

/--
Read the forms of a file. The source of a failure is left to be read again.
-/
def readForms (path : String) : Job (Except Failure (List (Expr Literal))) := do
  match ← onDisk (Disk.contents path) with
  | .error e => return .error { fault := .unreadableFile e }
  | .ok bytes =>
    match Expr.parse path (Text.ofBytes bytes).chars with
    | .error e => return .error (.ofReadError e [])
    | .ok forms => return .ok forms

def checkFiles : (paths : List String) → Job Nat
  | [] => return 0
  | path :: rest => do
    match ← readForms path with
    | .ok forms => do
      println s!"{path}: {forms.length} forms"
      checkFiles rest
    | .error f => do
      printError ((← onDisk f.render) ++ Text.ofString "\n")
      return (← checkFiles rest) + 1

def check (paths : List String) : Job (Except Problem Unit) := do
  let failed ← checkFiles paths
  return if failed = 0 then .ok () else .error (.unreadable failed paths.length)

end Job

end LispScript
