import LispScript.Kind

/-!
Values. Numbers, characters and Booleans are copied; strings, arrays, record types, records and
closures are references to objects of a `Store`, so that every copy stands for the same object.
-/

namespace LispScript

inductive Value where
  /-- No value at all. It counts as null, but has no printed form. -/
  | absent
  | null
  | integer (n : Int64)
  | real (x : Float)
  | char (c : Char)
  | boolean (b : Bool)
  | string (ref : Nat)
  | array (ref : Nat)
  | recordType (ref : Nat)
  | record (ref : Nat)
  | closure (ref : Nat)
  deriving Inhabited

namespace Value

def kind : Value → Kind
  | absent | null => .null
  | integer _ => .integer
  | real _ => .real
  | char _ => .char
  | boolean _ => .boolean
  | string _ => .string
  | array _ => .array
  | recordType _ => .recordType
  | record _ => .record
  | closure _ => .closure

def isNumber (v : Value) : Bool :=
  v.kind == .integer || v.kind == .real

def orNull : Value → Value
  | absent => null
  | v => v

def integer? : Value → Option Int64
  | integer n => some n
  | _ => none

/--
The real nearest to an integer; of two that are equally near, the one with the even significand.
-/
def nearestReal (n : Int64) : Float :=
  if n < 0 then -(-n).toUInt64.toFloat else n.toUInt64.toFloat

def real? : Value → Option Float
  | real x => some x
  | integer n => some (nearestReal n)
  | _ => none

def boolean? : Value → Option Bool
  | boolean b => some b
  | _ => none

def char? : Value → Option Char
  | char c => some c
  | _ => none

def string? : Value → Option Nat
  | string r => some r
  | _ => none

def array? : Value → Option Nat
  | array r => some r
  | _ => none

def recordType? : Value → Option Nat
  | recordType r => some r
  | _ => none

def record? : Value → Option Nat
  | record r => some r
  | _ => none

def closure? : Value → Option Nat
  | closure r => some r
  | _ => none

/--
Are two values one and the same? References have to stand for the same object; values that are copied
have to be of one kind and equal.
-/
def identical : Value → Value → Bool
  | absent, absent | null, null => true
  | integer a, integer b => a == b
  | real x, real y => x == y
  | char a, char b => a == b
  | boolean a, boolean b => a == b
  | string a, string b => a == b
  | array a, array b => a == b
  | recordType a, recordType b => a == b
  | record a, record b => a == b
  | closure a, closure b => a == b
  | _, _ => false

end Value

end LispScript
