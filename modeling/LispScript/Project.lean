import LispScript.Config
import LispScript.Workspace

/-!
Projects. A project is a directory with a configuration file; it is found from any directory inside
of it. Its prelude is evaluated before a program or a session.
-/

namespace LispScript

inductive Problem where
  | failure (f : Failure)
  | prelude (path : String) (f : Failure)
  | evaluation (f : Failure)
  | config (path : String) (e : ConfigError)
  | projectConfig (path : String) (e : ConfigError)
  | access (path : String) (e : FileError)
  | directory (path : String)
  | unreadable (failed total : Nat)

namespace Problem

def failure? : Problem → Option Failure
  | failure f | prelude _ f | evaluation f => some f
  | _ => none

def lead : Problem → String
  | failure _ => ""
  | prelude path _ => s!"loading prelude {path}: "
  | evaluation _ => "evaluation error: "
  | config path e => s!"parsing {path}: {e.message}"
  | projectConfig path e => s!"loading project config: parsing {path}: {e.message}"
  | access path e => s!"failed to access path {path}: {e.message}"
  | directory path => s!"{path} is a directory"
  | unreadable failed total => s!"{failed} of {total} files failed to parse"

def message (p : Problem) : String :=
  p.lead ++ (p.failure?.map Failure.message).getD ""

def render (p : Problem) : Disk Text := do
  match p.failure? with
  | some f => return Text.ofString p.lead ++ (← f.render)
  | none => return Text.ofString p.lead

end Problem

namespace Project

variable (decode : Config.Decoder)

def configName : String := "quill.toml"

/--
What marks a directory above which no project is looked for.
-/
def boundary : String := ".git"

def loadConfig (path : String) : Job (Except ConfigError Config) := do
  match ← Job.onDisk (Disk.contents path) with
  | .error e => return .error (.unreadable e)
  | .ok bytes =>
    match decode bytes with
    | .error reason => return .error (.invalid reason)
    | .ok (config, unknown) => do
      if !unknown.isEmpty then
        Job.log .warn "ignoring unknown config keys"
          [("path", path), ("keys", LogRecord.listText unknown)]
      return .ok config

/--
The first configuration file on the way up from a directory. The way ends at a boundary, or where a
directory is in itself.
-/
def nearestConfig (dir : String) : Disk (Option String) := do
  let path := Path.join dir configName
  match ← Disk.entry path with
  | .ok _ => return some path
  | .error _ =>
    match ← Disk.entry (Path.join dir boundary) with
    | .ok _ => return none
    | .error _ =>
      let parent := Path.directory dir
      if _h : parent = dir then return none else nearestConfig parent
termination_by Path.height dir
decreasing_by exact Path.height_directory_lt _h

def findConfig (dir : String) : Disk (Option String) := do
  nearestConfig (Path.absolute (← Disk.currentDirectory) dir)

def configFor (dir : String) : Job (Except (String × ConfigError) (Option (String × Config))) := do
  match ← Job.onDisk (findConfig dir) with
  | none => return .ok none
  | some path =>
    match ← loadConfig decode path with
    | .ok config => return .ok (some (path, config))
    | .error e => return .error (path, e)

def preludePaths (configPath : String) (config : Config) : List String :=
  config.prelude.map fun p =>
    if Path.isAbsolute p then p else Path.join (Path.directory configPath) p

end Project

namespace Job

def loadFile (frame : Nat) (path : Text) : Job (Except Failure Value) := do
  match ← onDisk (Disk.read path .done) with
  | .error e => return .error { fault := .unreadableFile e }
  | .ok bytes => evalSource frame path.toString (Text.ofBytes bytes)

def loadPrelude (frame : Nat) : (paths : List String) → Job (Except Problem Unit)
  | [] => return .ok ()
  | path :: rest => do
    match ← loadFile frame (Text.ofString path) with
    | .error f => return .error (.prelude path f)
    | .ok _ => do
      log .debug "loaded prelude" [("path", path)]
      loadPrelude frame rest

end Job

end LispScript
