import LispScript.Store

/-!
Equality of values. Numbers are equal across integers and reals; strings, arrays, records and record
types are compared by content, closures by their parts. Arrays and records may contain themselves:
a pair that is met again while it is compared is taken to be equal.
-/

namespace LispScript

namespace Value

inductive Pair where
  | arrays (a b : Nat)
  | records (a b : Nat)
  deriving DecidableEq, Repr

/--
Equality of numbers: exact between integers, else as reals.
-/
def equalNumbers : Value → Value → Bool
  | integer a, integer b => a == b
  | a, b =>
    match a.real?, b.real? with
    | some x, some y => x == y
    | _, _ => false

def equalFlat (s : Store) (a b : Value) : Bool :=
  match a.orNull, b.orNull with
  | null, null => true
  | char c, char d => c == d
  | boolean x, boolean y => x == y
  | string r, string t => (s.string r).chars == (s.string t).chars
  | closure r, closure t => s.sameClosure r t
  | recordType r, recordType t => s.recordType r == s.recordType t
  | a, b => equalNumbers a b

def equalAll (equal : List Pair → Value → Value → Bool × List Pair) (met : List Pair) :
    List (Value × Value) → Bool × List Pair
  | [] => (true, met)
  | (a, b) :: rest =>
    match equal met a b with
    | (true, met) => equalAll equal met rest
    | (false, met) => (false, met)

def field (r : Record) (member : String) : Value :=
  (r.fields.lookup member).getD absent

/--
Are two values equal, if the pairs `met` are? Also gives the pairs met by then. Each level meets a new
pair, so there are at most as many levels as pairs, which is the `fuel`.
-/
def equalMeeting (s : Store) : (fuel : Nat) → List Pair → Value → Value → Bool × List Pair
  | fuel + 1, met, array a, array b =>
    if a = b ∨ .arrays a b ∈ met then (true, met)
    else
      let met := .arrays a b :: met
      let x := s.array a
      let y := s.array b
      if x.size = y.size then
        equalAll (equalMeeting s fuel) met (x.toList.zip y.toList)
      else
        (false, met)
  | fuel + 1, met, record a, record b =>
    if a = b ∨ .records a b ∈ met then (true, met)
    else
      let met := .records a b :: met
      let x := s.record a
      let y := s.record b
      if s.typeOf a = s.typeOf b then
        equalAll (equalMeeting s fuel) met
          ((s.typeOf a).members.map fun m => (field x m, field y m))
      else
        (false, met)
  | _, met, a, b => (equalFlat s a b, met)

def equal (s : Store) (a b : Value) : Bool :=
  let pairs := s.arrays.size * s.arrays.size + s.records.size * s.records.size
  (equalMeeting s (pairs + 1) [] a b).1

def comparable (a b : Value) : Bool :=
  (a.isNumber && b.isNumber) || a.kind == b.kind

end Value

end LispScript
