import LispScript.Expr
import LispScript.Names
import LispScript.ReadError

/-!
The special forms: the names that a list can start with and that are no function names, with the
number of arguments that each of them takes.
-/

namespace LispScript

inductive SpecialForm where
  | var
  | assign
  | isBound
  | clone
  | progn
  | block
  | branch
  | cond
  | loop
  | breakLoop
  | negate
  | lambda
  | function
  | isType
  | print
  | println
  | read
  | recordType
  | isTypeNamed
  | makeRecord
  | isRecordOf
  | getMember
  | setMember
  | stringLength
  | charAt
  | setCharAt
  | concat
  | substring
  | find
  | arrayOf
  | makeArray
  | arrayLength
  | arrayGet
  | arraySet
  | arrayAdd
  | arith (op : ArithOp)
  | compare (op : CompareOp)
  | logic (op : LogicOp)
  deriving DecidableEq, Repr

namespace SpecialForm

def text : SpecialForm → String
  | var => "var"
  | assign => "="
  | isBound => "?"
  | clone => "clone"
  | progn => "progn"
  | block => "block"
  | branch => "if"
  | cond => "cond"
  | loop => "loop"
  | breakLoop => "break"
  | negate => "not"
  | lambda => "lambda"
  | function => "def"
  | isType => "istypeof"
  | print => "print"
  | println => "println"
  | read => "read"
  | recordType => "struct"
  | isTypeNamed => "isstructname"
  | makeRecord => "makeinstance"
  | isRecordOf => "isinstanceof"
  | getMember => "get"
  | setMember => "set"
  | stringLength => "strlen"
  | charAt => "charat"
  | setCharAt => "setcharat"
  | concat => "concat"
  | substring => "substr"
  | find => "find"
  | arrayOf => "array"
  | makeArray => "makearray"
  | arrayLength => "arrlen"
  | arrayGet => "arrget"
  | arraySet => "arrset"
  | arrayAdd => "arradd"
  | arith op => op.text
  | compare op => op.text
  | logic op => op.text

def all : List SpecialForm :=
  [var, assign, isBound, clone, progn, block, branch, cond, loop, breakLoop, negate, lambda,
    function, isType, print, println, read, recordType, isTypeNamed, makeRecord, isRecordOf,
    getMember, setMember, stringLength, charAt, setCharAt, concat, substring, find, arrayOf,
    makeArray, arrayLength, arrayGet, arraySet, arrayAdd] ++
    ArithOp.all.map arith ++ CompareOp.all.map compare ++ LogicOp.all.map logic

def ofText? (name : String) : Option SpecialForm :=
  all.find? (·.text == name)

def arity : SpecialForm → Arity
  | progn | block | cond | arrayOf => .atLeast 0
  | breakLoop | read => .exactly 0
  | print | println => .between 0 1
  | isRecordOf => .between 0 2
  | isBound | clone | negate | makeRecord | stringLength | arrayLength => .exactly 1
  | var | assign | isType | isTypeNamed => .between 1 2
  | lambda | recordType => .atLeast 1
  | getMember | charAt | concat | makeArray | arrayGet | arrayAdd => .exactly 2
  | arith _ | compare _ | logic _ => .exactly 2
  | branch | find => .between 2 3
  | loop | function => .atLeast 2
  | setMember | setCharAt | substring | arraySet => .exactly 3

end SpecialForm

def reserved? : String → Option Literal
  | "true" => some (.boolean true)
  | "false" => some (.boolean false)
  | "null" => some .null
  | _ => none

def keywords : List String :=
  sortNames (["true", "false", "null"] ++ SpecialForm.all.map SpecialForm.text)

end LispScript
