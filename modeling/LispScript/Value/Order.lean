import LispScript.Store

/-!
The order of values. Numbers, characters, Booleans and strings are ordered; no other pair is, and
neither is a pair with a real that is not a number.
-/

namespace LispScript

namespace Value

def compareReals (x y : Float) : Ordering :=
  if x < y then .lt else if y < x then .gt else .eq

def compareChars : List Char → List Char → Ordering
  | [], [] => .eq
  | [], _ :: _ => .lt
  | _ :: _, [] => .gt
  | a :: as, b :: bs =>
    if a < b then .lt else if b < a then .gt else compareChars as bs

def compare? (s : Store) (a b : Value) : Option Ordering :=
  match a, b with
  | integer m, integer n => some (if m < n then .lt else if n < m then .gt else .eq)
  | char c, char d => some (if c < d then .lt else if d < c then .gt else .eq)
  | boolean x, boolean y =>
    some (match x, y with
      | false, true => .lt
      | true, false => .gt
      | _, _ => .eq)
  | string r, string t => some (compareChars (s.string r).chars.toList (s.string t).chars.toList)
  | a, b =>
    match a.real?, b.real? with
    | some x, some y => if x.isNaN || y.isNaN then none else some (compareReals x y)
    | _, _ => none

end Value

end LispScript
