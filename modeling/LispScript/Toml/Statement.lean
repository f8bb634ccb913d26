import LispScript.Toml.Document

/-!
The statements of TOML documents, and the documents that they build. Inside of an inline table the
rules for its keys are those for keys of the document; besides, the inline table has entries of its
own, which become its value where one is needed.
-/

namespace LispScript

namespace Toml

inductive Written where
  | string (s : String)
  | boolean (b : Bool)
  | scalar
  | array (elements : List Written)
  | inlineTable (entries : List (Key × Written))

def Written.isArray : Written → Bool
  | array _ => true
  | _ => false

inductive Statement where
  | entry (key : Key) (value : Written)
  | table (key : Key)
  | tableOfArray (key : Key)

mutual

def Written.build (d : Document) (context : Key) (name : String) (inArray : Bool) :
    Written → Option (Node × Document)
  | .string s => some (.string s, d)
  | .boolean b => some (.boolean b, d)
  | .scalar => some (.scalar, d)
  | .array elements => do
    let (nodes, d) ← Written.buildAll (d.note context name true) context name elements
    return (.array nodes, d)
  | .inlineTable entries => do
    let key := context ++ [name]
    let d := d.imply key
    let d ← if inArray then d.extend key else d.define key
    let (own, d) := d.newTable
    return (.table own, ← Written.buildEntries d key own entries)

def Written.buildAll (d : Document) (context : Key) (name : String) :
    List Written → Option (List Node × Document)
  | [] => some ([], d)
  | w :: rest => do
    let (v, d) ← w.build d context name true
    let (vs, d) ← Written.buildAll d context name rest
    return (v :: vs, d)

def Written.buildEntries (d : Document) (context : Key) (own : Nat) :
    List (Key × Written) → Option Document
  | [] => some d
  | (path, w) :: rest => do
    let name ← path.getLast?
    let inner := context ++ path.dropLast
    let d ← d.openDotted context path.dropLast
    let (v, d) ← w.build (d.addKey (context ++ path)) inner name false
    let d := (← d.set inner name v).note inner name w.isArray
    let (ref, d) ← d.openInline own path.dropLast
    Written.buildEntries (d.put ref name v) context own rest

end

/--
Carry out a statement inside of the table at `context`; gives the context after it.
-/
def Statement.run (context : Key) (d : Document) : Statement → Option (Key × Document)
  | .entry path w => do
    let name ← path.getLast?
    let inner := context ++ path.dropLast
    let d ← d.openDotted context path.dropLast
    let (v, d) ← w.build (d.addKey (context ++ path)) inner name false
    return (context, (← d.set inner name v).note inner name w.isArray)
  | .table key => do
    let d ← d.define key
    return (key, (d.note key "" false).addKey key)
  | .tableOfArray key => do
    let d ← d.extend key
    return (key, (d.note key "" false).addKey key)

def Document.ofStatements (statements : List Statement) : Option Document :=
  go [] {} statements
where
  go (context : Key) (d : Document) : List Statement → Option Document
    | [] => some { d with keys := d.keys.reverse }
    | s :: rest => do
      let (context, d) ← s.run context d
      go context d rest

end Toml

end LispScript
