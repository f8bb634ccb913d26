import LispScript.Eval.Operation

/-!
Evaluation. `eval` evaluates an expression in a frame; its fuel bounds how deeply evaluations nest
and how often a loop turns. The forms are evaluated by `Run.perform`, which is given the evaluation
of their parts.
-/

namespace LispScript

namespace Run

/--
How the parts of a form are evaluated: in a frame, an expression.
-/
abbrev Evaluator := Nat → Expr Value → Run Value

variable (run : Evaluator)

def evalSequence (frame : Nat) (forms : List (Expr Value)) : Run Value :=
  go .null forms
where
  go (last : Value) : List (Expr Value) → Run Value
    | [] => return last
    | e :: rest => do
      let v ← run frame e
      go v rest

def evalAll (frame : Nat) (es : List (Expr Value)) : Run (Array Value) :=
  go #[] es
where
  go (vs : Array Value) : List (Expr Value) → Run (Array Value)
    | [] => return vs
    | e :: rest => do
      let v ← run frame e
      go (vs.push v) rest

def evalOperand {α : Type} (pick : Value → Option α) (operation : String) (frame : Nat)
    (e : Expr Value) : Run α := do
  let v ← run frame e
  match pick v with
  | some a => return a
  | none => fail (.operand operation v.kind)

def evalPart {α : Type} (pick : Value → Option α) (wanted : Kind) (role : String) (frame : Nat)
    (e : Expr Value) : Run α := do
  let v ← run frame e
  match pick v with
  | some a => return a
  | none => fail (.expression role wanted v.kind)

def evalCondition (role : String) (frame : Nat) (e : Expr Value) : Run Bool :=
  if e.isAbsent then fail (.missing role)
  else evalPart run Value.boolean? .boolean role frame e

def evalCases (frame : Nat) : List (Expr Value × Expr Value) → Run Value
  | [] => return .null
  | (predicate, result) :: rest => do
    if ← evalCondition run "cond predicate" frame predicate then
      run frame result
    else
      evalCases frame rest

def evalLoop (frame : Nat) (condition advance body : Expr Value) :
    (fuel : Nat) → (last : Value) → Run Value
  | 0, _ => throw .exhausted
  | fuel + 1, last => do
    if ← evalCondition run "loop condition" frame condition then
      let last ← run frame body
      let _ ← run frame advance
      evalLoop frame condition advance body fuel last
    else
      return last

def bindAll (frame : Nat) : List (String × Value) → Run Unit
  | [] => return ()
  | (name, v) :: rest => do
    define frame name v
    bindAll frame rest

/--
Call a closure: its body is evaluated in a new frame inside of the one it was made in.
-/
def callClosure (ref : Nat) (args : Array Value) : Run Value := do
  let closure ← inspect (·.closure ref)
  if args.size ≠ closure.params.length then
    fail (.argumentCount closure.params.length args.size)
  else
    let frame ← create (·.addFrame (some closure.frame))
    bindAll frame (closure.params.zip args.toList)
    run frame closure.body

def evalCall (frame ref : Nat) (args : List (Expr Value)) : Run Value := do
  let scope ← create (·.addFrame (some frame))
  let args ← evalAll run scope args
  callClosure run ref args

def evalText (operation : String) (frame : Nat) (e : Expr Value) : Run TextOperand := do
  match ← run frame e with
  | .string r => return .view (← inspect fun s => (s.string r).view r)
  | .char c => return .char c
  | v => fail (.operand operation v.kind)

def present (form : String) : Value → Run Value
  | .absent => fail (.noValue form)
  | v => return v

def readLiteral : Run Value := do
  let line := (← nextLine).trim
  if line.isEmpty then
    return .null
  else
    match Literal.parse line.chars with
    | .ok l => create l.toValue
    | .error e => fail (.malformed e)

/--
Evaluate the form at `location` in a frame; `run` evaluates its parts, and `fuel` bounds the turns of a
loop.
-/
def perform (fuel frame : Nat) (location : Option Location) : Form Value → Run Value
  | .literal v => return v.orNull
  | .symbol name => lookup frame name
  | .define name value => do
    let v ← run frame value
    define frame name v
    return v
  | .assign name value => do
    let v ← run frame value
    assign frame name v
    return v
  | .isBound name => return .boolean (← inspect (·.isBound frame name))
  | .clone operand => do
    let v ← run frame operand
    clone v
  | .sequence forms => evalSequence run frame forms
  | .block forms => do
    let scope ← create (·.addFrame (some frame))
    evalSequence run scope forms
  | .arith op left right => do
    let l ← run frame left
    let r ← run frame right
    ofPrimitive (Primitive.arith op l r)
  | .compare op left right => do
    let l ← run frame left
    let r ← run frame right
    consult (Primitive.compare · op l r)
  | .logic op left right => do
    let l ← run frame left
    let r ← run frame right
    ofPrimitive (Primitive.logic op l r)
  | .negate operand => do
    let b ← evalOperand run Value.boolean? "not" frame operand
    return .boolean !b
  | .branch condition onTrue onFalse => do
    let scope ← create (·.addFrame (some frame))
    if ← evalCondition run "if predicate" scope condition then
      run scope onTrue
    else
      run scope onFalse
  | .cond cases => evalCases run frame cases
  | .loop start condition advance body => do
    let scope ← create (·.addFrame (some frame))
    catchBreak do
      let _ ← run scope start
      evalLoop run scope condition advance body fuel .null
  | .breakLoop => throw (.breakLoop location)
  | .lambda site params body =>
    create (·.addClosure { params, body, site, frame })
  | .apply callee args => do
    let ref ← evalPart run Value.closure? .closure "callee" frame callee
    evalCall run frame ref args
  | .function name lambda => do
    let v ← run frame lambda
    define frame name v
    return v
  | .call name args => do
    match ← lookup frame name with
    | .closure ref => evalCall run frame ref args
    | v => fail (.notClosure name v.kind)
  | .isType operand type =>
    if operand.isAbsent then return .boolean false
    else return .boolean (type.admits (← run frame operand).kind)
  | .print operand newline => do
    if operand.isAbsent then
      print (if newline then "\n" else "")
      return .null
    else
      let v ← run frame operand
      let text ← inspect fun s => v.text s
      print (if newline then text ++ "\n" else text)
      return v
  | .read => readLiteral
  | .recordType name members => do
    let type ← ofPrimitive (Primitive.recordType name members)
    create (·.addRecordType type)
  | .isTypeNamed operand name =>
    if operand.isAbsent then return .boolean false
    else do
      match ← run frame operand with
      | .recordType ref => return .boolean ((← inspect (·.recordType ref)).name == name)
      | _ => return .boolean false
  | .makeRecord type => do
    let ref ← evalPart run Value.recordType? .recordType "makeinstance operand" frame type
    create (·.addBlankRecord ref)
  | .isRecordOf operand type =>
    if operand.isAbsent || type.isAbsent then return .boolean false
    else do
      let v ← run frame operand
      let t ← run frame type
      match v, t with
      | .record r, .recordType t => return .boolean (← inspect fun s => s.typeOf r == s.recordType t)
      | _, _ => return .boolean false
  | .getMember record member => do
    let ref ← evalPart run Value.record? .record "get operand" frame record
    present "GetMember" (← getMember ref member)
  | .setMember record member value => do
    let ref ← evalPart run Value.record? .record "set operand" frame record
    let v ← run frame value
    setMember ref member v
    return v
  | .stringLength string => do
    let ref ← evalOperand run Value.string? "strlen" frame string
    return .integer (.ofNat (← stringLength ref))
  | .charAt string index => do
    let ref ← evalOperand run Value.string? "charat" frame string
    let i ← evalOperand run Value.integer? "charat" frame index
    return .char (← charAt ref i)
  | .setCharAt string index char => do
    let ref ← evalOperand run Value.string? "setcharat" frame string
    let i ← evalOperand run Value.integer? "setcharat" frame index
    let c ← evalOperand run Value.char? "setcharat" frame char
    setCharAt ref i c
    return .string ref
  | .concat string suffix => do
    let ref ← evalOperand run Value.string? "concat" frame string
    let suffix ← evalText run "concat" frame suffix
    appendChars ref (← inspect fun s => suffix.chars s)
    return .string ref
  | .substring string start length => do
    let ref ← evalOperand run Value.string? "substr" frame string
    let start ← evalOperand run Value.integer? "substr" frame start
    let length ← evalOperand run Value.integer? "substr" frame length
    substring ref start length
  | .find string needle start => do
    let ref ← evalOperand run Value.string? "find" frame string
    let needle ← evalText run "find" frame needle
    let start ← if start.isAbsent then pure 0
      else evalOperand run Value.integer? "find" frame start
    return .integer (← find ref needle start)
  | .arrayOf elements => do
    let vs ← evalAll run frame elements
    create (·.addArray vs)
  | .makeArray size fill => do
    let size ← evalOperand run Value.integer? "makearray" frame size
    let size ← ofPrimitive (Primitive.arraySize size)
    let fill ← run frame fill
    create (·.addArray (Array.replicate size fill))
  | .arrayLength array => do
    let ref ← evalOperand run Value.array? "arrlen" frame array
    return .integer (.ofNat (← arrayLength ref))
  | .arrayGet array index => do
    let ref ← evalOperand run Value.array? "arrget" frame array
    let i ← evalOperand run Value.integer? "arrget" frame index
    present "ArrGet" (← arrayGet ref i)
  | .arraySet array index value => do
    let ref ← evalOperand run Value.array? "arrset" frame array
    let i ← evalOperand run Value.integer? "arrset" frame index
    let v ← run frame value
    arraySet ref i v
    return v
  | .arrayAdd array value => do
    let ref ← evalOperand run Value.array? "arradd" frame array
    let v ← run frame value
    arrayAdd ref v
    return .array ref

end Run

def eval (context : Option Context) : (fuel frame : Nat) → Expr Value → Run Value
  | _, _, .absent => return .null
  | 0, _, .node _ _ => throw .exhausted
  | fuel + 1, frame, .node location form =>
    Run.located context location (Run.perform (eval context fuel) fuel frame location form)

def Failure.ofBreak (context : Option Context) (location : Option Location) : Failure :=
  let source :=
    match context, location with
    | some c, some l => c.sourceFor l
    | _, _ => []
  { fault := .strayBreak, origin := some { location, source } }

def Run.refuseBreak {α : Type} (context : Option Context) (r : Run α) : Run α := fun m =>
  match r m with
  | .error (.breakLoop location) m => .error (.failure (.ofBreak context location)) m
  | result => result

def Interrupt.toFailure : Interrupt → Failure
  | .breakLoop _ => { fault := .strayBreak }
  | .failure f => f
  | .exhausted => { fault := .exhausted }

end LispScript
