/-!
The binary operators. Trees that were not read from source text may hold operators that do not
exist; they are kept under their spelling.
-/

namespace LispScript

inductive ArithOp where
  | add
  | sub
  | mul
  | div
  | mod
  | unknown (spelling : String)
  deriving DecidableEq, Repr

inductive CompareOp where
  | eq
  | ne
  | lt
  | gt
  | le
  | ge
  | unknown (spelling : String)
  deriving DecidableEq, Repr

inductive LogicOp where
  | and
  | or
  | unknown (spelling : String)
  deriving DecidableEq, Repr

namespace ArithOp

def text : ArithOp → String
  | add => "+"
  | sub => "-"
  | mul => "*"
  | div => "/"
  | mod => "%"
  | unknown s => s

def all : List ArithOp := [add, sub, mul, div, mod]

def ofText (s : String) : ArithOp :=
  (all.find? (·.text == s)).getD (unknown s)

end ArithOp

namespace CompareOp

def text : CompareOp → String
  | eq => "=="
  | ne => "!="
  | lt => "<"
  | gt => ">"
  | le => "<="
  | ge => ">="
  | unknown s => s

def all : List CompareOp := [eq, ne, lt, gt, le, ge]

def ofText (s : String) : CompareOp :=
  (all.find? (·.text == s)).getD (unknown s)

end CompareOp

namespace LogicOp

def text : LogicOp → String
  | and => "and"
  | or => "or"
  | unknown s => s

def all : List LogicOp := [and, or]

def ofText (s : String) : LogicOp :=
  (all.find? (·.text == s)).getD (unknown s)

end LogicOp

end LispScript
