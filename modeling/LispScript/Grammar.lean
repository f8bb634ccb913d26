import LispScript.Datum
import LispScript.Decimal.Real
import LispScript.SpecialForm

/-!
From S-expressions to expressions. A list that starts with the name of a special form is that form,
and its arguments have to fit; any other list is a call. `Expr.parse` reads a whole source text.
-/

namespace LispScript

def refuse {α : Type} (location : Location) (fault : ReadFault) : Except ReadError α :=
  .error (.atPlace location fault)

def Word.integerValue (word : List Char) : Int :=
  let n : Int := Real.digitsValue (unsigned word)
  if word.head? = some '-' then -n else n

def Word.realValue (word : List Char) : Float :=
  let body := unsigned word
  let whole := body.takeWhile (· != '.')
  Real.ofDigits (word.head? = some '-') whole (body.drop (whole.length + 1)) 0

def Atom.toForm (location : Location) : Atom → Except ReadError (Form Literal)
  | .integer word =>
    let n := Word.integerValue word.toList
    if Int64.minValue.toInt ≤ n ∧ n ≤ Int64.maxValue.toInt then .ok (.literal (.integer (.ofInt n)))
    else refuse location (.integerRange word)
  | .real word =>
    let x := Word.realValue word.toList
    if x.isInf then refuse location (.realRange word) else .ok (.literal (.real x))
  | .character c => .ok (.literal (.char c))
  | .string content => .ok (.literal (.string content))
  | .symbol name =>
    match reserved? name with
    | some l => .ok (.literal l)
    | none => .ok (.symbol name)

namespace Datum

def bindable (role : String) (d : Datum) : Except ReadError String :=
  match d.symbol? with
  | some name =>
    if (reserved? name).isSome then refuse d.location (.reservedName role name) else .ok name
  | none => refuse d.location (.notSymbol role d.shape)

def parameters : Datum → Except ReadError (List String)
  | .list _ items => items.mapM (bindable "parameter")
  | d => refuse d.location (.parametersShape d.shape)

/--
The type that `istypeof` names. Here `null` is the name of a type.
-/
def typeName (d : Datum) : Except ReadError TypeName :=
  match d.symbol? with
  | some name =>
    match TypeName.ofText name with
    | .unknown _ => refuse d.location (.unknownType name)
    | type => .ok type
  | none => refuse d.location (.notSymbol "istypeof type" d.shape)

end Datum

/--
An argument of a form, with what it stands for where an expression is asked for.
-/
structure Argument where
  datum : Datum
  expr : Except ReadError (Expr Literal)

namespace Argument

def exprs (args : List Argument) : Except ReadError (List (Expr Literal)) :=
  args.mapM expr

/--
Several forms as one; it is shown where the first of them is.
-/
def body (args : List Argument) : Except ReadError (Expr Literal) :=
  match args with
  | [] => .ok .absent
  | [a] => a.expr
  | a :: _ => return .node (some a.datum.location) (.sequence (← exprs args))

end Argument

def SpecialForm.assemble (form : SpecialForm) (location : Location) (args : List Argument) :
    Except ReadError (Form Literal) :=
  match form, args with
  | .var, [name] => return .define (← name.datum.bindable "var target") .absent
  | .var, [name, value] => do
    let name ← name.datum.bindable "var target"
    return .define name (← value.expr)
  | .assign, [name] => return .assign (← name.datum.bindable "= target") .absent
  | .assign, [name, value] => do
    let name ← name.datum.bindable "= target"
    return .assign name (← value.expr)
  | .isBound, [name] => return .isBound (← name.datum.bindable "? operand")
  | .clone, [operand] => return .clone (← operand.expr)
  | .progn, forms => return .sequence (← Argument.exprs forms)
  | .block, forms => return .block (← Argument.exprs forms)
  | .branch, [condition, onTrue] => do
    let condition ← condition.expr
    return .branch condition (← onTrue.expr) .absent
  | .branch, [condition, onTrue, onFalse] => do
    let condition ← condition.expr
    let onTrue ← onTrue.expr
    return .branch condition onTrue (← onFalse.expr)
  | .loop, [condition, body] => do
    let condition ← condition.expr
    return .loop .absent condition .absent (← body.expr)
  | .loop, [start, condition, body] => do
    let start ← start.expr
    let condition ← condition.expr
    return .loop start condition .absent (← body.expr)
  | .loop, start :: condition :: advance :: forms => do
    let start ← start.expr
    let condition ← condition.expr
    let advance ← advance.expr
    return .loop start condition advance (← Argument.body forms)
  | .breakLoop, [] => return .breakLoop
  | .negate, [operand] => return .negate (← operand.expr)
  | .lambda, params :: forms => do
    let params ← params.datum.parameters
    return .lambda 0 params (← Argument.body forms)
  | .function, name :: params :: forms => do
    let name ← name.datum.bindable "function name"
    let params ← params.datum.parameters
    return .function name (.node (some location) (.lambda 0 params (← Argument.body forms)))
  | .isType, [type] => return .isType .absent (← type.datum.typeName)
  | .isType, [operand, type] => do
    let type ← type.datum.typeName
    return .isType (← operand.expr) type
  | .print, [] => return .print .absent false
  | .print, [operand] => return .print (← operand.expr) false
  | .println, [] => return .print .absent true
  | .println, [operand] => return .print (← operand.expr) true
  | .read, [] => return .read
  | .recordType, name :: members => do
    let name ← name.datum.bindable "struct name"
    return .recordType name (← members.mapM (·.datum.bindable "struct member"))
  | .isTypeNamed, [name] => return .isTypeNamed .absent (← name.datum.bindable "struct name")
  | .isTypeNamed, [operand, name] => do
    let name ← name.datum.bindable "struct name"
    return .isTypeNamed (← operand.expr) name
  | .makeRecord, [type] => return .makeRecord (← type.expr)
  | .isRecordOf, [] => return .isRecordOf .absent .absent
  | .isRecordOf, [operand] => return .isRecordOf (← operand.expr) .absent
  | .isRecordOf, [operand, type] => do
    let operand ← operand.expr
    return .isRecordOf operand (← type.expr)
  | .getMember, [record, member] => do
    let record ← record.expr
    return .getMember record (← member.datum.bindable "member")
  | .setMember, [record, member, value] => do
    let record ← record.expr
    let member ← member.datum.bindable "member"
    return .setMember record member (← value.expr)
  | .stringLength, [string] => return .stringLength (← string.expr)
  | .charAt, [string, index] => do
    let string ← string.expr
    return .charAt string (← index.expr)
  | .setCharAt, [string, index, char] => do
    let string ← string.expr
    let index ← index.expr
    return .setCharAt string index (← char.expr)
  | .concat, [string, suffix] => do
    let string ← string.expr
    return .concat string (← suffix.expr)
  | .substring, [string, start, length] => do
    let string ← string.expr
    let start ← start.expr
    return .substring string start (← length.expr)
  | .find, [string, needle] => do
    let string ← string.expr
    return .find string (← needle.expr) .absent
  | .find, [string, needle, start] => do
    let string ← string.expr
    let needle ← needle.expr
    return .find string needle (← start.expr)
  | .arrayOf, elements => return .arrayOf (← Argument.exprs elements)
  | .makeArray, [size, fill] => do
    let size ← size.expr
    return .makeArray size (← fill.expr)
  | .arrayLength, [array] => return .arrayLength (← array.expr)
  | .arrayGet, [array, index] => do
    let array ← array.expr
    return .arrayGet array (← index.expr)
  | .arraySet, [array, index, value] => do
    let array ← array.expr
    let index ← index.expr
    return .arraySet array index (← value.expr)
  | .arrayAdd, [array, value] => do
    let array ← array.expr
    return .arrayAdd array (← value.expr)
  | .arith op, [left, right] => do
    let left ← left.expr
    return .arith op left (← right.expr)
  | .compare op, [left, right] => do
    let left ← left.expr
    return .compare op left (← right.expr)
  | .logic op, [left, right] => do
    let left ← left.expr
    return .logic op left (← right.expr)
  | form, args => refuse location (.arity form.text form.arity args.length)

namespace Datum

mutual

def toExpr : Datum → Except ReadError (Expr Literal)
  | .atom location a => return .node (some location) (← a.toForm location)
  | .list location [] => refuse location .emptyForm
  | .list location (head :: args) =>
    match head with
    | .list _ _ => do
      let callee ← toExpr head
      let args ← Argument.exprs (toArguments args)
      return .node (some location) (.apply callee args)
    | .atom headLocation (.symbol name) =>
      if (reserved? name).isSome then
        refuse headLocation (.reservedCall name)
      else
        match SpecialForm.ofText? name with
        | some .cond => return .node (some location) (.cond (← toCases args))
        | some form =>
          if form.arity.admits args.length then
            return .node (some location) (← form.assemble location (toArguments args))
          else
            refuse location (.arity form.text form.arity args.length)
        | none => return .node (some location) (.call name (← Argument.exprs (toArguments args)))
    | .atom headLocation a => refuse headLocation (.notCallable a.shape)

def toArguments : List Datum → List Argument
  | [] => []
  | d :: rest => { datum := d, expr := toExpr d } :: toArguments rest

/--
The cases of a `cond`. A case may leave out its result, and its predicate too.
-/
def toCases : List Datum → Except ReadError (List (Expr Literal × Expr Literal))
  | [] => .ok []
  | .atom location a :: _ => refuse location (.caseShape a.shape)
  | .list location items :: rest =>
    if items.length > 2 then
      refuse location (.caseSize items.length)
    else do
      let parts ← Argument.exprs (toArguments items)
      let cases ← toCases rest
      return (parts[0]?.getD .absent, parts[1]?.getD .absent) :: cases

end

end Datum

def Expr.parse (file : String) (source : List Char) : Except ReadError (List (Expr Literal)) := do
  let data ← Datum.readAll file source
  data.mapM Datum.toExpr

def inputName : String := "<input>"

def Literal.parse (source : List Char) : Except ReadError Literal := do
  match ← Datum.readAll inputName source with
  | [d] =>
    match ← d.toExpr with
    | .node _ (.literal l) => return l
    | _ => refuse d.location (.notLiteral d.shape)
  | data => .error { fault := .literalCount data.length, location := none }

end LispScript
