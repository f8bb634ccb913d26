import LispScript.Location
import LispScript.Text.Quoted

/-!
What can be wrong with source text, from its characters to the shape of its forms.
-/

namespace LispScript

inductive Shape where
  | integer
  | real
  | character
  | string
  | symbol
  | list
  deriving DecidableEq, Repr

def Shape.text : Shape → String
  | integer => "integer"
  | real => "real"
  | character => "character"
  | string => "string"
  | symbol => "symbol"
  | list => "list"

/--
How many arguments a form takes; without `most` there is no upper limit.
-/
structure Arity where
  least : Nat
  most : Option Nat
  deriving DecidableEq, Repr

namespace Arity

def exactly (n : Nat) : Arity := ⟨n, some n⟩

def between (lo hi : Nat) : Arity := ⟨lo, some hi⟩

def atLeast (n : Nat) : Arity := ⟨n, none⟩

def admits (a : Arity) (n : Nat) : Bool :=
  a.least ≤ n && a.most.all (n ≤ ·)

def text (a : Arity) : String :=
  match a.most with
  | none => s!"at least {a.least} argument(s)"
  | some hi => if a.least = hi then s!"{hi} argument(s)" else s!"{a.least} to {hi} arguments"

end Arity

inductive QuoteMark where
  | single
  | double
  deriving DecidableEq, Repr

namespace QuoteMark

def char : QuoteMark → Char
  | single => '\''
  | double => '"'

def literalName : QuoteMark → String
  | single => "character"
  | double => "string"

end QuoteMark

inductive ReadFault where
  | unclosedList
  | unterminated (mark : QuoteMark)
  | unknownEscape (c : Char)
  | characterCount (content : String)
  | malformedNumber (word : String)
  | manyPoints (word : String)
  | unexpectedClose
  | emptyForm
  | notCallable (shape : Shape)
  | reservedCall (name : String)
  | integerRange (word : String)
  | realRange (word : String)
  | arity (form : String) (takes : Arity) (got : Nat)
  | notSymbol (role : String) (shape : Shape)
  | reservedName (role : String) (name : String)
  | caseShape (shape : Shape)
  | caseSize (forms : Nat)
  | parametersShape (shape : Shape)
  | unknownType (name : String)
  | literalCount (forms : Nat)
  | notLiteral (shape : Shape)
  deriving DecidableEq, Repr

namespace ReadFault

/--
Does the text merely end too early, so that more text may help?
-/
def isIncomplete : ReadFault → Bool
  | unclosedList | unterminated _ => true
  | _ => false

def message : ReadFault → String
  | unclosedList => "unclosed '('"
  | unterminated mark => s!"unterminated {mark.literalName} literal"
  | unknownEscape c => "unknown escape sequence \\" ++ c.toString
  | characterCount content =>
    "character literal must hold exactly one character, got " ++ quoted content
  | malformedNumber word => "malformed number " ++ quoted word
  | manyPoints word => "malformed number " ++ quoted word ++ ": more than one '.'"
  | unexpectedClose => "unexpected ')'"
  | emptyForm => "empty form"
  | notCallable shape => s!"cannot call a {shape.text}"
  | reservedCall name => s!"cannot call {name}"
  | integerRange word =>
    s!"integer literal {word}: strconv.ParseInt: parsing " ++ quoted word ++
      ": value out of range"
  | realRange word =>
    s!"real literal {word}: strconv.ParseFloat: parsing " ++ quoted word ++
      ": value out of range"
  | arity form takes got => s!"{form} takes {takes.text}, got {got}"
  | notSymbol role shape => s!"{role} must be a symbol, got {shape.text}"
  | reservedName role name => s!"{role} cannot be {name}"
  | caseShape shape => s!"cond case must be a list, got {shape.text}"
  | caseSize forms => s!"cond case takes a predicate and a result, got {forms} forms"
  | parametersShape shape => s!"parameter list must be a list, got {shape.text}"
  | unknownType name => s!"unknown type name {name}"
  | literalCount forms => s!"expected a single literal, got {forms} forms"
  | notLiteral shape => s!"expected a literal, got {shape.text}"

end ReadFault

structure ReadError where
  fault : ReadFault
  location : Option Location
  deriving DecidableEq, Repr

namespace ReadError

def atPlace (location : Location) (fault : ReadFault) : ReadError :=
  { fault, location := some location }

def message (e : ReadError) : String :=
  e.fault.message

def isIncomplete (e : ReadError) : Bool :=
  e.fault.isIncomplete

end ReadError

end LispScript
