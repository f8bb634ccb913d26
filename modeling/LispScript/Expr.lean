import LispScript.Kind
import LispScript.Location
import LispScript.Operator

/-!
Expressions. An expression is a form with the place it was read from; parts that a form leaves out
are `absent`. The parameter `α` is the type of literals: source text gives `Expr Literal`, and what
is evaluated is `Expr Value`.
-/

namespace LispScript

inductive Literal where
  | null
  | integer (n : Int64)
  | real (x : Float)
  | char (c : Char)
  | boolean (b : Bool)
  | string (content : String)

mutual

inductive Expr (α : Type) where
  /-- A part that was left out. -/
  | absent
  | node (location : Option Location) (form : Form α)

inductive Form (α : Type) where
  | literal (value : α)
  | symbol (name : String)
  | define (name : String) (value : Expr α)
  | assign (name : String) (value : Expr α)
  | isBound (name : String)
  | clone (operand : Expr α)
  /-- Forms in the current frame. -/
  | sequence (forms : List (Expr α))
  /-- Forms in a frame of their own. -/
  | block (forms : List (Expr α))
  | arith (op : ArithOp) (left right : Expr α)
  | compare (op : CompareOp) (left right : Expr α)
  | logic (op : LogicOp) (left right : Expr α)
  | negate (operand : Expr α)
  | branch (condition onTrue onFalse : Expr α)
  | cond (cases : List (Expr α × Expr α))
  | loop (start condition advance body : Expr α)
  | breakLoop
  /-- A closure; `site` tells apart the places in programs where closures are made. -/
  | lambda (site : Nat) (params : List String) (body : Expr α)
  | apply (callee : Expr α) (args : List (Expr α))
  | function (name : String) (lambda : Expr α)
  | call (name : String) (args : List (Expr α))
  | isType (operand : Expr α) (type : TypeName)
  | print (operand : Expr α) (newline : Bool)
  | read
  | recordType (name : String) (members : List String)
  | isTypeNamed (operand : Expr α) (name : String)
  | makeRecord (type : Expr α)
  | isRecordOf (operand type : Expr α)
  | getMember (record : Expr α) (member : String)
  | setMember (record : Expr α) (member : String) (value : Expr α)
  | stringLength (string : Expr α)
  | charAt (string index : Expr α)
  | setCharAt (string index char : Expr α)
  | concat (string suffix : Expr α)
  | substring (string start length : Expr α)
  | find (string needle start : Expr α)
  | arrayOf (elements : List (Expr α))
  | makeArray (size fill : Expr α)
  | arrayLength (array : Expr α)
  | arrayGet (array index : Expr α)
  | arraySet (array index value : Expr α)
  | arrayAdd (array value : Expr α)

end

instance {α : Type} : Inhabited (Form α) := ⟨.breakLoop⟩

namespace Expr

instance {α : Type} : Inhabited (Expr α) := ⟨.absent⟩

def isAbsent {α : Type} : Expr α → Bool
  | absent => true
  | node _ _ => false

def location? {α : Type} : Expr α → Option Location
  | absent => none
  | node l _ => l

end Expr

end LispScript
