import LispScript.Decimal.Shortest

/-!
Real numbers as text. A real is written with the fewest digits that read back; very large and very
small ones have an exponent.
-/

namespace LispScript

namespace Decimal

/--
The decimal exponents that are written without an exponent: from `-4` up to `5`.
-/
def isPositional (exponent : Int) : Bool :=
  -4 ≤ exponent && exponent < 6

def exponentText (e : Int) : String :=
  let digits := toString e.natAbs
  "e" ++ (if e < 0 then "-" else "+") ++ (if digits.length < 2 then "0" ++ digits else digits)

def text (d : Decimal) : String :=
  let digits := (toString d.digits).toList
  let leading := d.exponent + digits.length - 1
  if isPositional leading then
    if 0 ≤ d.exponent then
      String.ofList (digits ++ List.replicate d.exponent.toNat '0')
    else if 0 ≤ leading then
      String.ofList (digits.take (leading.toNat + 1) ++ '.' :: digits.drop (leading.toNat + 1))
    else
      String.ofList ('0' :: '.' :: List.replicate (-leading - 1).toNat '0' ++ digits)
  else
    let rest := digits.drop 1
    String.ofList (digits.take 1 ++ (if rest.isEmpty then [] else '.' :: rest)) ++
      exponentText leading

end Decimal

namespace Real

def shortText (x : Float) : String :=
  if x.isNaN then
    "NaN"
  else
    let negative := x.toBits >>> 63 == 1
    let size :=
      if x.isInf then (if negative then "-Inf" else "+Inf")
      else if x == 0 then "0"
      else (Decimal.shortest (.ofFloat x)).text
    if negative && !x.isInf then "-" ++ size else size

/--
The printed form of a real: its shortest text, with `.0` if nothing else shows that it is one.
-/
def text (x : Float) : String :=
  let s := shortText x
  if s.any fun c => c == '.' || c == 'e' || c == 'I' || c == 'N' then s else s ++ ".0"

def digitsValue (digits : List Char) : Nat :=
  digits.foldl (fun n c => 10 * n + (c.toNat - '0'.toNat)) 0

def ofDigits (negative : Bool) (whole fraction : List Char) (exponent : Int) : Float :=
  let scale := exponent - fraction.length
  let size := Float.ofScientific (digitsValue (whole ++ fraction)) (scale < 0) scale.natAbs
  if negative then -size else size

/--
Read a real from an optional sign, digits with at most one point, and an optional exponent. `NaN` and
the infinities are spelled as they are printed.
-/
def ofText? (s : String) : Option Float :=
  let cs := s.toList
  let (negative, body) :=
    match cs with
    | '-' :: r => (true, r)
    | '+' :: r => (false, r)
    | r => (false, r)
  if body = "Inf".toList then some (if negative then -(1.0 / 0.0) else 1.0 / 0.0)
  else if cs = "NaN".toList then some (0.0 / 0.0)
  else
    let mantissa := body.takeWhile fun c => c != 'e' && c != 'E'
    let exponent := (body.drop (mantissa.length + 1)).dropWhile (· == '+')
    let whole := mantissa.takeWhile Char.isDigit
    let fraction := (mantissa.drop whole.length).drop 1
    if (whole ++ fraction).isEmpty || !(whole ++ fraction).all Char.isDigit then none
    else if exponent.isEmpty then some (ofDigits negative whole fraction 0)
    else (String.ofList exponent).toInt?.map (ofDigits negative whole fraction)

end Real

end LispScript
