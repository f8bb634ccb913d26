import LispScript.Eval.Machine
import LispScript.Value.Clone
import LispScript.Value.Equal
import LispScript.Value.Order
import LispScript.Value.Print

/-!
The operations of the language on operands that have been evaluated.
-/

namespace LispScript

namespace Primitive

/-! Numbers. -/

/--
Reals nearer to zero than this count as zero when something is divided by them.
-/
def tiny : Float := 1e-10

def integerArith (op : ArithOp) (l r : Int64) : Except Fault Value :=
  match op with
  | .add => .ok (.integer (l + r))
  | .sub => .ok (.integer (l - r))
  | .mul => .ok (.integer (l * r))
  | .div => if r = 0 then .error (.quotientByZero l) else .ok (.integer (l / r))
  | .mod => if r = 0 then .error (.remainderByZero l) else .ok (.integer (l % r))
  | .unknown spelling => .error (.unknownOperator "arithmetic" spelling)

def realArith (op : ArithOp) (l r : Float) : Except Fault Value :=
  match op with
  | .add => .ok (.real (l + r))
  | .sub => .ok (.real (l - r))
  | .mul => .ok (.real (l * r))
  | .div => if r.abs < tiny then .error (.realQuotientByZero l r) else .ok (.real (l / r))
  | .mod => .error (.operand op.text .real)
  | .unknown spelling => .error (.unknownOperator "arithmetic" spelling)

/--
Two integers give an integer; with a real, both operands count as reals.
-/
def arith (op : ArithOp) (left right : Value) : Except Fault Value :=
  match left, right with
  | .integer l, .integer r => integerArith op l r
  | l, r =>
    match l.real?, r.real? with
    | some x, some y => realArith op x y
    | none, _ => .error (.operand op.text l.kind)
    | some _, none => .error (.operand op.text r.kind)

/-! Comparison and logic. -/

def holds (op : CompareOp) (order : Ordering) : Except Fault Bool :=
  match op with
  | .lt => .ok order.isLT
  | .gt => .ok order.isGT
  | .le => .ok order.isLE
  | .ge => .ok order.isGE
  | .eq => .ok order.isEq
  | .ne => .ok order.isNe
  | .unknown spelling => .error (.unknownOperator "comparison" spelling)

/--
Compare two values of one kind, or two numbers. Values without an order are not ordered.
-/
def compare (s : Store) (op : CompareOp) (left right : Value) : Except Fault Value :=
  if !left.comparable right then
    .error (.incomparable left.kind right.kind)
  else
    match op with
    | .eq => .ok (.boolean (Value.equal s left right))
    | .ne => .ok (.boolean (!Value.equal s left right))
    | op =>
      match Value.compare? s left right with
      | some order => (holds op order).map .boolean
      | none => .ok (.boolean false)

def logic (op : LogicOp) (left right : Value) : Except Fault Value :=
  match left, right with
  | .boolean l, .boolean r =>
    match op with
    | .and => .ok (.boolean (l && r))
    | .or => .ok (.boolean (l || r))
    | .unknown spelling => .error (.unknownOperator "logic" spelling)
  | .boolean _, r => .error (.operand op.text r.kind)
  | l, _ => .error (.operand op.text l.kind)

/-! Indexes. -/

def index (role : String) (i : Int64) (size : Nat) : Except Fault Nat :=
  if 0 ≤ i.toInt ∧ i.toInt < size then .ok i.toInt.toNat else .error (.index role i.toInt size)

/-! Strings. -/

def substring (s : Array Char) (start length : Int64) : Except Fault (Array Char) := do
  let i ← index "substring start" start (s.size + 1)
  if 0 ≤ length.toInt ∧ length.toInt ≤ s.size - i then
    return s.extract i (i + length.toInt.toNat)
  else
    .error (.substringLength length.toInt start.toInt s.size)

def position? (needle : List Char) (k : Nat) (text : List Char) : Option Nat :=
  if needle.isPrefixOf text then some k
  else
    match text with
    | [] => none
    | _ :: rest => position? needle (k + 1) rest

def find (s : List Char) (needle : List Char) (start : Int64) : Except Fault Int64 := do
  let k ← index "search start" start (s.length + 1)
  match position? needle k (s.drop k) with
  | some i => return .ofNat i
  | none => return -1

/-! Arrays. -/

def mostElements : Nat := Nat.pow 2 24

def arraySize (n : Int64) : Except Fault Nat :=
  if 0 ≤ n.toInt ∧ n.toInt ≤ mostElements then .ok n.toInt.toNat
  else .error (.arraySize n.toInt mostElements)

/-! Records. -/

def repeated? : (earlier members : List String) → Option String
  | _, [] => none
  | earlier, m :: rest => if m ∈ earlier then some m else repeated? (m :: earlier) rest

def recordType (name : String) (members : List String) : Except Fault RecordType :=
  match repeated? [] members with
  | some m => .error (.duplicateMember m name)
  | none => .ok { name, members }

def getField (s : Store) (ref : Nat) (member : String) : Except Fault Value :=
  match (s.record ref).fields.lookup member with
  | some v => .ok v
  | none => .error (.unknownMember (s.typeOf ref).name member)

end Primitive

namespace Run

def ofPrimitive {α : Type} : Except Fault α → Run α
  | .ok a => return a
  | .error fault => fail fault

def consult {α : Type} (f : Store → Except Fault α) : Run α := do
  ofPrimitive (f (← get).store)

end Run

end LispScript
