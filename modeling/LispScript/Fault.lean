import LispScript.Decimal.Real
import LispScript.FileError
import LispScript.Kind
import LispScript.ReadError
import LispScript.Text.Glyph

/-!
Faults: what goes wrong when programs are evaluated. A `Failure` is a fault together with the place
it comes from.
-/

namespace LispScript

inductive FaultSort where
  | unknownSymbol
  | duplicateDefinition
  | operandType
  | expressionType
  | incompatibleTypes
  | divisionByZero
  | outOfRange
  | argumentCount
  | unknownMember
  | unknownFile
  | malformed
  | strayBreak
  | other
  deriving DecidableEq, Repr

def FaultSort.title : FaultSort → String
  | unknownSymbol => "unknown symbol"
  | duplicateDefinition => "duplicate definition"
  | operandType => "invalid operand type"
  | expressionType => "invalid expression type"
  | incompatibleTypes => "incompatible types"
  | divisionByZero => "division by zero"
  | outOfRange => "out of range"
  | argumentCount => "invalid number of arguments"
  | unknownMember => "unknown member"
  | unknownFile => "unknown file"
  | malformed => "malformed expression"
  | strayBreak => "break outside of loop"
  | other => "error"

inductive Fault where
  | unknownSymbol (name : String)
  | duplicateName (name : String)
  | duplicateMember (member type : String)
  | operand (operation : String) (got : Kind)
  | expression (role : String) (wanted got : Kind)
  | notClosure (name : String) (got : Kind)
  | missing (role : String)
  | incomparable (left right : Kind)
  | quotientByZero (left : Int64)
  | remainderByZero (left : Int64)
  | realQuotientByZero (left right : Float)
  | index (role : String) (i : Int) (size : Nat)
  | substringLength (length start : Int) (size : Nat)
  | arraySize (size : Int) (most : Nat)
  | argumentCount (wanted got : Nat)
  | unknownMember (type member : String)
  | unknownOperator (family spelling : String)
  | unreadableFile (e : FileError)
  | malformed (e : ReadError)
  | strayBreak
  | noValue (form : String)
  /-- The evaluation nests too deeply, or does not end. -/
  | exhausted

namespace Fault

def sort : Fault → FaultSort
  | unknownSymbol _ => .unknownSymbol
  | duplicateName _ | duplicateMember _ _ => .duplicateDefinition
  | operand _ _ => .operandType
  | expression _ _ _ | notClosure _ _ | missing _ => .expressionType
  | incomparable _ _ => .incompatibleTypes
  | quotientByZero _ | remainderByZero _ | realQuotientByZero _ _ => .divisionByZero
  | index _ _ _ | substringLength _ _ _ | arraySize _ _ => .outOfRange
  | argumentCount _ _ => .argumentCount
  | unknownMember _ _ => .unknownMember
  | unreadableFile _ => .unknownFile
  | unknownOperator _ _ | malformed _ => .malformed
  | strayBreak => .strayBreak
  | noValue _ | exhausted => .other

def detail : Fault → String
  | unknownSymbol name => name
  | duplicateName name => name
  | duplicateMember member type => s!"member {member} of struct {type}"
  | operand operation got => s!"{operation} does not accept {got.text}"
  | expression role wanted got => s!"{role} must be {wanted.text}, got {got.text}"
  | notClosure name got => s!"{name} is {got.text}, not closure"
  | missing role => s!"missing {role}"
  | incomparable left right => s!"cannot compare {left.text} with {right.text}"
  | quotientByZero left => s!"{left.toInt} / 0"
  | remainderByZero left => s!"{left.toInt} % 0"
  | realQuotientByZero left right => s!"{Real.shortText left} / {Real.shortText right}"
  | index role i size => s!"{role} {i} not in [0, {size})"
  | substringLength length start size => s!"substring length {length} from {start} exceeds {size}"
  | arraySize size most => s!"array size {size} not in [0, {most}]"
  | argumentCount wanted got => s!"expected {wanted}, got {got}"
  | unknownMember type member => s!"{type} has no member " ++ quoted member
  | unknownOperator family spelling => s!"unknown {family} operator " ++ quoted spelling
  | unreadableFile e => e.message
  | malformed e => e.message
  | strayBreak => ""
  | noValue form => s!"Evaluator(*quill.{form}) returned nil"
  | exhausted => "evaluation nests too deeply"

def message (f : Fault) : String :=
  match f with
  | malformed _ | noValue _ | exhausted => f.detail
  | strayBreak => f.sort.title
  | f => s!"{f.sort.title}: {f.detail}"

end Fault

structure Origin where
  location : Option Location
  /-- Empty if the text is not at hand; then it is that of the location's file. -/
  source : Text
  deriving DecidableEq

structure Failure where
  fault : Fault
  origin : Option Origin := none

namespace Failure

def message (f : Failure) : String :=
  f.fault.message

def location? (f : Failure) : Option Location :=
  match f.origin with
  | some o => o.location
  | none =>
    match f.fault with
    | .malformed e => e.location
    | _ => none

def ofReadError (e : ReadError) (source : Text) : Failure :=
  { fault := .malformed e
    origin := e.location.map fun l => { location := some l, source } }

end Failure

structure Context where
  file : String
  source : Text

namespace Context

def sourceFor (c : Context) (l : Location) : Text :=
  if l.file = c.file then c.source else []

end Context

/--
Note where a failure arose, unless that is known, or nothing is known about the place.
-/
def Failure.locate (context : Option Context) (location : Option Location) (f : Failure) :
    Failure :=
  match f.origin, context, location with
  | none, some c, some l => { f with origin := some { location := some l, source := c.sourceFor l } }
  | _, _, _ => f

end LispScript
