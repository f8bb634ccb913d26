/-!
The kinds of values, and the type names that a program can ask for.
-/

namespace LispScript

inductive Kind where
  | null
  | integer
  | real
  | char
  | boolean
  | string
  | closure
  | recordType
  | record
  | array
  deriving DecidableEq, Repr

namespace Kind

def all : List Kind :=
  [null, integer, real, char, boolean, string, closure, recordType, record, array]

def text : Kind → String
  | null => "null"
  | integer => "integer"
  | real => "real"
  | char => "char"
  | boolean => "boolean"
  | string => "string"
  | closure => "closure"
  | recordType => "struct"
  | record => "instance"
  | array => "array"

def ofText? (name : String) : Option Kind :=
  all.find? (·.text == name)

/--
The name of the kind with the given number; other numbers have a made-up name.
-/
def textOfNumber (n : Int) : String :=
  match (if n < 0 then none else all[n.toNat]?) with
  | some k => k.text
  | none => s!"unknown_kind_{n}"

end Kind

/--
What `istypeof` asks for: a kind, either kind of number, or a name that fits no value.
-/
inductive TypeName where
  | kind (k : Kind)
  | number
  | unknown (name : String)
  deriving DecidableEq, Repr

namespace TypeName

def text : TypeName → String
  | kind k => k.text
  | number => "number"
  | unknown name => name

def ofText (name : String) : TypeName :=
  if name = "number" then number
  else
    match Kind.ofText? name with
    | some k => kind k
    | none => unknown name

def admits : TypeName → Kind → Bool
  | kind k, k' => k == k'
  | number, k => k == .integer || k == .real
  | unknown _, _ => false

end TypeName

end LispScript
