import LispScript.Eval.Machine

/-!
Loading: what has been read becomes what can be evaluated. Each string literal gets a buffer, which
it keeps for all its evaluations, and each place that makes closures gets a site of its own.
-/

namespace LispScript

mutual

def Expr.load : Expr Literal → StateM Store (Expr Value)
  | .absent => return .absent
  | .node location form => return .node location (← Form.load form)

def Form.load : Form Literal → StateM Store (Form Value)
  | .literal l => return .literal (← modifyGet l.toValue)
  | .symbol name => return .symbol name
  | .define name value => return .define name (← Expr.load value)
  | .assign name value => return .assign name (← Expr.load value)
  | .isBound name => return .isBound name
  | .clone operand => return .clone (← Expr.load operand)
  | .sequence forms => return .sequence (← Expr.loadAll forms)
  | .block forms => return .block (← Expr.loadAll forms)
  | .arith op left right => return .arith op (← Expr.load left) (← Expr.load right)
  | .compare op left right => return .compare op (← Expr.load left) (← Expr.load right)
  | .logic op left right => return .logic op (← Expr.load left) (← Expr.load right)
  | .negate operand => return .negate (← Expr.load operand)
  | .branch condition onTrue onFalse =>
    return .branch (← Expr.load condition) (← Expr.load onTrue) (← Expr.load onFalse)
  | .cond cases => return .cond (← Expr.loadCases cases)
  | .loop start condition advance body =>
    return .loop (← Expr.load start) (← Expr.load condition) (← Expr.load advance)
      (← Expr.load body)
  | .breakLoop => return .breakLoop
  | .lambda _ params body =>
    return .lambda (← modifyGet Store.addSite) params (← Expr.load body)
  | .apply callee args => return .apply (← Expr.load callee) (← Expr.loadAll args)
  | .function name lambda => return .function name (← Expr.load lambda)
  | .call name args => return .call name (← Expr.loadAll args)
  | .isType operand type => return .isType (← Expr.load operand) type
  | .print operand newline => return .print (← Expr.load operand) newline
  | .read => return .read
  | .recordType name members => return .recordType name members
  | .isTypeNamed operand name => return .isTypeNamed (← Expr.load operand) name
  | .makeRecord type => return .makeRecord (← Expr.load type)
  | .isRecordOf operand type => return .isRecordOf (← Expr.load operand) (← Expr.load type)
  | .getMember record member => return .getMember (← Expr.load record) member
  | .setMember record member value =>
    return .setMember (← Expr.load record) member (← Expr.load value)
  | .stringLength string => return .stringLength (← Expr.load string)
  | .charAt string index => return .charAt (← Expr.load string) (← Expr.load index)
  | .setCharAt string index char =>
    return .setCharAt (← Expr.load string) (← Expr.load index) (← Expr.load char)
  | .concat string suffix => return .concat (← Expr.load string) (← Expr.load suffix)
  | .substring string start length =>
    return .substring (← Expr.load string) (← Expr.load start) (← Expr.load length)
  | .find string needle start =>
    return .find (← Expr.load string) (← Expr.load needle) (← Expr.load start)
  | .arrayOf elements => return .arrayOf (← Expr.loadAll elements)
  | .makeArray size fill => return .makeArray (← Expr.load size) (← Expr.load fill)
  | .arrayLength array => return .arrayLength (← Expr.load array)
  | .arrayGet array index => return .arrayGet (← Expr.load array) (← Expr.load index)
  | .arraySet array index value =>
    return .arraySet (← Expr.load array) (← Expr.load index) (← Expr.load value)
  | .arrayAdd array value => return .arrayAdd (← Expr.load array) (← Expr.load value)

def Expr.loadAll : List (Expr Literal) → StateM Store (List (Expr Value))
  | [] => return []
  | e :: rest => return (← Expr.load e) :: (← Expr.loadAll rest)

def Expr.loadCases :
    List (Expr Literal × Expr Literal) → StateM Store (List (Expr Value × Expr Value))
  | [] => return []
  | (predicate, result) :: rest =>
    return (← Expr.load predicate, ← Expr.load result) :: (← Expr.loadCases rest)

end

end LispScript
