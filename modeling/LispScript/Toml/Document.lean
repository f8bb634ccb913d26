/-!
TOML documents in the making: tables by number, what stands at their keys, and what is known about
keys. A key that no statement has defined by itself is implied and may still be defined, once.
-/

namespace LispScript

namespace Toml

abbrev Key := List String

/--
What stands at a name of a table. Tables are referred to by number.
-/
inductive Node where
  | string (s : String)
  | boolean (b : Bool)
  | scalar
  | array (elements : List Node)
  | table (ref : Nat)
  | tables (last : Nat) (earlier : List Nat)

abbrev Entries := List (String × Node)

structure Document where
  tables : Array Entries := #[[]]
  /-- Keys that were only implied so far. -/
  implied : List Key := []
  arrays : List Key := []
  keys : List Key := []

namespace Document

def root : Nat := 0

def entries (d : Document) (ref : Nat) : Entries :=
  d.tables[ref]?.getD []

def lookup (d : Document) (ref : Nat) (name : String) : Option Node :=
  (d.entries ref).lookup name

def put (d : Document) (ref : Nat) (name : String) (v : Node) : Document :=
  let entries := d.entries ref
  let entries :=
    if (entries.lookup name).isSome then
      entries.map fun (k, old) => if k == name then (k, v) else (k, old)
    else entries ++ [(name, v)]
  { d with tables := d.tables.setIfInBounds ref entries }

def newTable (d : Document) : Nat × Document :=
  (d.tables.size, { d with tables := d.tables.push [] })

def putTable (d : Document) (ref : Nat) (name : String) : Document :=
  let (new, d) := d.newTable
  d.put ref name (.table new)

def step (d : Document) (ref : Nat) (name : String) : Option Nat :=
  match d.lookup ref name with
  | some (.table inner) => some inner
  | some (.tables last _) => some last
  | _ => none

def find (d : Document) (key : Key) : Option Nat :=
  key.foldlM d.step root

def imply (d : Document) (key : Key) : Document :=
  { d with implied := key :: d.implied }

def settle (d : Document) (key : Key) : Document :=
  { d with implied := d.implied.filter (· != key) }

def addKey (d : Document) (key : Key) : Document :=
  { d with keys := key :: d.keys }

/--
Note whether what stands at a name of the table at `context` is an array. An empty name is left out of
the key that this is noted for, unless there is nothing else.
-/
def note (d : Document) (context : Key) (name : String) (isArray : Bool) : Document :=
  let key := if name.isEmpty && !context.isEmpty then context else context ++ [name]
  let others := d.arrays.filter (· != key)
  { d with arrays := if isArray then key :: others else others }

/--
Set the node at a name of the table at `context`. What stands there already must be implied and is
defined from now on: it stays as it is, unless its key was given an array.
-/
def set (d : Document) (context : Key) (name : String) (v : Node) : Option Document := do
  let ref ← d.find context
  let key := context ++ [name]
  if (d.lookup ref name).isNone then some (d.put ref name v)
  else if !d.implied.contains key then none
  else if d.arrays.contains key then some ((d.settle key).put ref name v)
  else some (d.settle key)

def openPath (d : Document) (ref : Nat) (done : Key) : (path : Key) → Option (Nat × Document)
  | [] => some (ref, d)
  | name :: rest => do
    let key := done ++ [name]
    let d := if (d.lookup ref name).isNone then (d.imply key).putTable ref name else d
    d.openPath (← d.step ref name) key rest

def define (d : Document) (key : Key) : Option Document := do
  let name ← key.getLast?
  let (_, d) ← d.openPath root [] key.dropLast
  let (new, d) := d.newTable
  d.set key.dropLast name (.table new)

def extend (d : Document) (key : Key) : Option Document := do
  let name ← key.getLast?
  let (ref, d) ← d.openPath root [] key.dropLast
  let (new, d) := d.newTable
  match d.lookup ref name with
  | none => some (d.put ref name (.tables new []))
  | some (.tables last earlier) => some (d.put ref name (.tables new (last :: earlier)))
  | some _ => none

def openDotted (d : Document) (context : Key) : (path : Key) → Option Document
  | [] => some d
  | name :: rest => do
    let key := context ++ [name]
    (← (d.imply key).define key).openDotted key rest

def openInline (d : Document) (ref : Nat) : (path : Key) → Option (Nat × Document)
  | [] => some (ref, d)
  | name :: rest =>
    let d := if (d.lookup ref name).isNone then d.putTable ref name else d
    match d.lookup ref name with
    | some (.table inner) => d.openInline inner rest
    | _ => none

end Document

def Key.text (key : Key) : String :=
  ".".intercalate (key.map part)
where
  isPlain (c : Char) : Bool :=
    c.isAlphanum || c == '_' || c == '-'
  hex4 (n : Nat) : String :=
    let ds := Nat.toDigits 16 n
    String.ofList (List.replicate (4 - ds.length) '0' ++ ds)
  escape (c : Char) : String :=
    match c with
    | '"' => "\\\""
    | '\\' => "\\\\"
    | '\x08' => "\\b"
    | '\t' => "\\t"
    | '\n' => "\\n"
    | '\x0c' => "\\f"
    | '\r' => "\\r"
    | c => if c.toNat < 0x20 || c.toNat == 0x7F then "\\u" ++ hex4 c.toNat else c.toString
  part (name : String) : String :=
    if !name.isEmpty && name.all isPlain then name
    else "\"" ++ String.join (name.toList.map escape) ++ "\""

end Toml

end LispScript
