import LispScript.Decimal.Real
import LispScript.Expr
import LispScript.Text.Quoted

/-!
Outlines: the tree of an expression written out, one field to a line, for looking at what the reader
made of a text. Fields that follow each other line by line are aligned.
-/

namespace LispScript

inductive Outline where
  | text (s : String)
  | fields (head : String) (fs : List (String × Outline))
  | items (head : String) (is : List Outline)

namespace Outline

def indentation : String := "    "

def closeWith (lines : List String) (s : String) : List String :=
  match lines.reverse with
  | last :: before => ((last ++ s) :: before).reverse
  | [] => [s]

def label (width : Nat) (name : String) : String :=
  let s := name ++ ":"
  s ++ String.ofList (List.replicate (width - s.length) ' ')

def labelWidth (names : List String) : Nat :=
  names.foldl (fun w name => max w (name.length + 2)) indentation.length

/--
Write the labels of fields before their lines. A field of several lines ends a run.
-/
def align (run : List (String × List String)) : List (String × List String) → List String
  | [] => write run
  | f :: rest =>
    if f.2.length = 1 then align (run ++ [f]) rest
    else write (run ++ [f]) ++ align [] rest
where
  write (run : List (String × List String)) : List String :=
    let width := labelWidth (run.map Prod.fst)
    run.flatMap fun (name, lines) =>
      match lines with
      | first :: rest => (label width name ++ first) :: rest
      | [] => []

mutual

def lines : Outline → List String
  | .text s => [s]
  | .fields head fs =>
    (head ++ "\x7b") :: (align [] (fieldLines fs)).map (indentation ++ ·) ++ ["\x7d"]
  | .items head is => (head ++ "\x7b") :: (itemLines is).map (indentation ++ ·) ++ ["\x7d"]

def fieldLines : List (String × Outline) → List (String × List String)
  | [] => []
  | (name, o) :: rest => (name, closeWith (lines o) ",") :: fieldLines rest

def itemLines : List Outline → List String
  | [] => []
  | o :: rest => closeWith (lines o) "," ++ itemLines rest

end

def render (o : Outline) : String :=
  "\n".intercalate (lines o)

def deepest : Nat := 10

def atDepth (depth : Nat) (o : Outline) : Outline :=
  if deepest < depth then .text "!%v(DEPTH EXCEEDED)" else o

def reference : Outline → Outline
  | .text s => .text ("&" ++ s)
  | .fields head fs => .fields ("&" ++ head) fs
  | .items head is => .items ("&" ++ head) is

/--
A location, unless it is that of an enclosing form.
-/
def ofLocation (depth : Nat) (enclosing : List Location) (l : Location) : Outline :=
  reference <| atDepth (depth + 1) <| .text <|
    if l ∈ enclosing then "quill.SourceLocation\x7b(CYCLIC REFERENCE)\x7d"
    else
      "quill.SourceLocation\x7bFilename:" ++ quoted l.file ++
        s!", Line:{l.line}, Column:{l.column}, Length:{l.length}" ++ "\x7d"

def inlineList (ss : List String) : Outline :=
  .text ("\x7b" ++ ", ".intercalate ss ++ "\x7d")

def names (ss : List String) : Outline :=
  inlineList (ss.map quoted)

/--
A number, character or Boolean; a zero is not written out.
-/
def scalar (type : String) (isZero : Bool) (value : String) : Outline :=
  .text (s!"quill.{type}" ++ (if isZero then "\x7b\x7d" else "\x7bVal:" ++ value ++ "\x7d"))

def ofLiteral (depth : Nat) : Literal → Outline
  | .null => .text "quill.NullValue\x7b\x7d"
  | .integer n => scalar "IntValue" (n == 0) (toString n.toInt)
  | .real x => scalar "RealValue" (x == 0) (Real.shortText x)
  | .char c => scalar "CharValue" (c.toNat == 0) (toString c.toNat)
  | .boolean b => scalar "BoolValue" (!b) "true"
  | .string s =>
    let codes := inlineList (s.toList.map fun c => toString c.toNat)
    reference (atDepth (depth + 1) (.fields "quill.StringValue" [("Runes", codes)]))

def located (depth : Nat) (enclosing : List Location) (l : Option Location) : String × Outline :=
  let place :=
    match l with
    | some l => ofLocation depth enclosing l
    | none => .text "nil"
  ("Located", .fields "quill.Located" [("Loc", place)])

mutual

def ofExpr (depth : Nat) (enclosing : List Location) : Expr Literal → Outline
  | .absent => .text "nil"
  | .node l form => reference (ofForm (depth + 1) enclosing l form)

def ofForm (depth : Nat) (enclosing : List Location) (l : Option Location) :
    Form Literal → Outline := fun form =>
  let inner := l.toList ++ enclosing
  let node (type : String) (fs : List (String × Outline)) : Outline :=
    atDepth depth (.fields s!"quill.{type}" (located depth enclosing l :: fs))
  let text (s : String) : Outline := .text (quoted s)
  let list (is : List Outline) : Outline := .items "" is
  match form with
  | .literal v => node "Literal" [("Value", ofLiteral depth v)]
  | .symbol n => node "Symbol" [("Name", text n)]
  | .define n e => node "Define" [("Name", text n), ("Value", ofExpr depth inner e)]
  | .assign n e => node "Assign" [("Name", text n), ("Value", ofExpr depth inner e)]
  | .isBound n => node "Exists" [("Name", text n)]
  | .clone e => node "CloneExpr" [("Operand", ofExpr depth inner e)]
  | .sequence es => node "ProgN" [("Forms", list (ofExprs depth inner es))]
  | .block es => node "Block" [("Forms", list (ofExprs depth inner es))]
  | .arith op a b =>
    node "ArithOp"
      [("Op", text op.text), ("Left", ofExpr depth inner a), ("Right", ofExpr depth inner b)]
  | .compare op a b =>
    node "CompOp"
      [("Op", text op.text), ("Left", ofExpr depth inner a), ("Right", ofExpr depth inner b)]
  | .logic op a b =>
    node "LogicOp"
      [("Op", text op.text), ("Left", ofExpr depth inner a), ("Right", ofExpr depth inner b)]
  | .negate e => node "Not" [("Operand", ofExpr depth inner e)]
  | .branch c a b =>
    node "If"
      [("Condition", ofExpr depth inner c), ("Then", ofExpr depth inner a),
        ("Else", ofExpr depth inner b)]
  | .cond cases =>
    node "Cond" [("Cases", if cases.isEmpty then .text "nil" else list (ofCases depth inner cases))]
  | .loop i c a b =>
    node "Loop"
      [("Init", ofExpr depth inner i), ("Condition", ofExpr depth inner c),
        ("Step", ofExpr depth inner a), ("LoopBody", ofExpr depth inner b)]
  | .breakLoop => node "Break" []
  | .lambda _ ps b => node "LambdaExpr" [("Params", names ps), ("Body", ofExpr depth inner b)]
  | .apply c args =>
    node "LambdaApp"
      [("Callee", ofExpr depth inner c), ("Args", list (ofExprs depth inner args))]
  | .function n e => node "FunctionExpr" [("Name", text n), ("Lambda", ofExpr depth inner e)]
  | .call n args =>
    node "FunctionApp" [("Name", text n), ("Args", list (ofExprs depth inner args))]
  | .isType e t => node "IsType" [("Operand", ofExpr depth inner e), ("TypeName", text t.text)]
  | .print e newline =>
    node "Print"
      [("Operand", ofExpr depth inner e), ("Newline", .text (if newline then "true" else "false"))]
  | .read => node "Read" []
  | .recordType n ms => node "StructDef" [("Name", text n), ("Members", names ms)]
  | .isTypeNamed e n => node "IsStructName" [("Operand", ofExpr depth inner e), ("Name", text n)]
  | .makeRecord t => node "MakeInstance" [("Type", ofExpr depth inner t)]
  | .isRecordOf e t =>
    node "IsInstanceOf" [("Operand", ofExpr depth inner e), ("Type", ofExpr depth inner t)]
  | .getMember e m => node "GetMember" [("Instance", ofExpr depth inner e), ("Member", text m)]
  | .setMember e m v =>
    node "SetMember"
      [("Instance", ofExpr depth inner e), ("Member", text m), ("Value", ofExpr depth inner v)]
  | .stringLength e => node "StrLen" [("String", ofExpr depth inner e)]
  | .charAt e i => node "CharAt" [("String", ofExpr depth inner e), ("Index", ofExpr depth inner i)]
  | .setCharAt e i c =>
    node "SetCharAt"
      [("String", ofExpr depth inner e), ("Index", ofExpr depth inner i),
        ("Char", ofExpr depth inner c)]
  | .concat e s =>
    node "Concat" [("String", ofExpr depth inner e), ("Suffix", ofExpr depth inner s)]
  | .substring e i n =>
    node "Substr"
      [("String", ofExpr depth inner e), ("Start", ofExpr depth inner i),
        ("Length", ofExpr depth inner n)]
  | .find e n i =>
    node "Find"
      [("String", ofExpr depth inner e), ("Needle", ofExpr depth inner n),
        ("From", ofExpr depth inner i)]
  | .arrayOf es => node "ArrayLit" [("Elements", list (ofExprs depth inner es))]
  | .makeArray n v =>
    node "MakeArray" [("Size", ofExpr depth inner n), ("Fill", ofExpr depth inner v)]
  | .arrayLength a => node "ArrLen" [("Array", ofExpr depth inner a)]
  | .arrayGet a i => node "ArrGet" [("Array", ofExpr depth inner a), ("Index", ofExpr depth inner i)]
  | .arraySet a i v =>
    node "ArrSet"
      [("Array", ofExpr depth inner a), ("Index", ofExpr depth inner i),
        ("Value", ofExpr depth inner v)]
  | .arrayAdd a v => node "ArrAdd" [("Array", ofExpr depth inner a), ("Value", ofExpr depth inner v)]

def ofExprs (depth : Nat) (enclosing : List Location) : List (Expr Literal) → List Outline
  | [] => []
  | e :: rest => atDepth (depth + 1) (ofExpr (depth + 1) enclosing e) :: ofExprs depth enclosing rest

def ofCases (depth : Nat) (enclosing : List Location) :
    List (Expr Literal × Expr Literal) → List Outline
  | [] => []
  | (p, r) :: rest =>
    (if p.isAbsent && r.isAbsent then .text "\x7b\x7d"
      else .fields ""
        [("Predicate", ofExpr depth enclosing p), ("Result", ofExpr depth enclosing r)]) ::
      ofCases depth enclosing rest

end

def ofProgram (es : List (Expr Literal)) : Outline :=
  .items "[]quill.Node" (ofExprs 0 [] es)

end Outline

end LispScript
