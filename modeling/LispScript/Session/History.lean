import LispScript.Text.Chunk

/-!
The history of sessions: the inputs so far, one to a line of a file.
-/

namespace LispScript

/--
The inputs so far, the latest last.
-/
structure History where
  entries : List Text := []
  deriving DecidableEq

namespace History

def limit : Nat := 1000

def ofEntries (entries : List Text) : History :=
  ⟨entries.drop (entries.length - limit)⟩

def add (h : History) (input : Text) : History :=
  if h.entries.getLast? = some input then h else ofEntries (h.entries ++ [input])

def entry (input : Text) : Text :=
  input.map fun g => if g = .char '\n' then .char ' ' else g

inductive Defect where
  | tooLong (line : Nat)
  | invalid (line : Nat)
  deriving DecidableEq, Repr

def Defect.message : Defect → String
  | tooLong line => s!"line {line} is too long"
  | invalid line => s!"invalid string at line {line}"

/--
The entries up to the first line that cannot be one; `read` are those before, the latest first.
-/
def ofChunks (read : List Text) : List Chunk → List Text × Option Defect
  | [] => (read.reverse, none)
  | c :: rest =>
    if c.isPart then (read.reverse, some (.tooLong (read.length + 1)))
    else if !c.text.isValid then (read.reverse, some (.invalid (read.length + 1)))
    else ofChunks (c.text :: read) rest

def ofBytes (bytes : List UInt8) : History × Option Defect :=
  let (entries, defect) := ofChunks [] (Chunk.ofBytes bytes)
  (ofEntries entries, defect)

def text (h : History) : Text :=
  h.entries.flatMap (· ++ [.char '\n'])

end History

end LispScript
