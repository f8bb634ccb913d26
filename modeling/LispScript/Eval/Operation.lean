import LispScript.Eval.Primitive

/-!
The operations that look at or change objects, on operands that have been evaluated. Each of them
first finds out whether it can be done; if not, nothing is changed.
-/

namespace LispScript

namespace Run

/-! Strings. -/

def stringLength (ref : Nat) : Run Nat :=
  inspect fun s => (s.string ref).chars.size

def charAt (ref : Nat) (i : Int64) : Run Char := do
  let chars ← inspect fun s => (s.string ref).chars
  let i ← ofPrimitive (Primitive.index "string index" i chars.size)
  return chars.getD i default

def setCharAt (ref : Nat) (i : Int64) (c : Char) : Run Unit := do
  let i ← ofPrimitive (Primitive.index "string index" i (← stringLength ref))
  update (·.setChar ref i c)

def appendChars (ref : Nat) (suffix : List Char) : Run Unit :=
  update (·.appendChars ref suffix.toArray)

def substring (ref : Nat) (start length : Int64) : Run Value := do
  let part ← consult fun s => Primitive.substring (s.string ref).chars start length
  create (·.addString (.exact part))

/--
A text that an operation works on: a single character, or a look at a string.
-/
inductive TextOperand where
  | char (c : Char)
  | view (v : TextView)

def TextOperand.chars (s : Store) : TextOperand → List Char
  | char c => [c]
  | view v => (s.string v.ref).seen v

/--
The position of a text in a string at or after `start`, or `-1`.
-/
def find (ref : Nat) (needle : TextOperand) (start : Int64) : Run Int64 :=
  consult fun s => Primitive.find (s.string ref).chars.toList (needle.chars s) start

/-! Arrays. -/

def arrayLength (ref : Nat) : Run Nat :=
  inspect fun s => (s.array ref).size

def arrayGet (ref : Nat) (i : Int64) : Run Value := do
  let elements ← inspect (·.array ref)
  let i ← ofPrimitive (Primitive.index "array index" i elements.size)
  return elements.getD i .absent

def arraySet (ref : Nat) (i : Int64) (v : Value) : Run Unit := do
  let i ← ofPrimitive (Primitive.index "array index" i (← arrayLength ref))
  update (·.setElement ref i v)

def arrayAdd (ref : Nat) (v : Value) : Run Unit :=
  update (·.pushElement ref v)

/-! Records. -/

def getMember (ref : Nat) (member : String) : Run Value :=
  consult (Primitive.getField · ref member)

def setMember (ref : Nat) (member : String) (v : Value) : Run Unit := do
  let _ ← getMember ref member
  update (·.setField ref member v)

/-! Copies. -/

def clone (v : Value) : Run Value :=
  create fun s => Value.clone s v

end Run

end LispScript
