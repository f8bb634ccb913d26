/-!
The shortest decimal that stands for a binary floating point number: the fewest digits that read
back as the same number, and of those the ones nearest to it.
-/

namespace LispScript

structure Decimal where
  digits : Nat
  exponent : Int
  deriving DecidableEq, Repr

namespace Decimal

/--
A positive binary number `mantissa * 2 ^ exponent`. `narrowBelow` holds if the next smaller number of
the format is only half as far away as the next larger one.
-/
structure Binary where
  mantissa : Nat
  exponent : Int
  narrowBelow : Bool := false
  deriving DecidableEq, Repr

def Binary.ofFloat (x : Float) : Binary :=
  let bits := x.toBits.toNat
  let fraction := bits % Nat.pow 2 52
  let scale := bits / Nat.pow 2 52 % Nat.pow 2 11
  if scale = 0 then
    { mantissa := fraction, exponent := -1074 }
  else
    { mantissa := Nat.pow 2 52 + fraction
      exponent := (scale : Int) - 1075
      narrowBelow := fraction == 0 && 1 < scale }

structure Ratio where
  num : Nat
  den : Nat

def Ratio.scaled (n : Nat) (twos tens : Int) : Ratio :=
  { num := n * Nat.pow 2 twos.toNat * Nat.pow 10 (-tens).toNat
    den := Nat.pow 2 (-twos).toNat * Nat.pow 10 tens.toNat }

def leadingExponent (b : Binary) : Int :=
  let guess : Int := ((Nat.log2 b.mantissa : Int) + b.exponent) * 30103 / 100000
  let atLeast (tens : Int) : Bool :=
    let r := Ratio.scaled b.mantissa b.exponent tens
    r.den ≤ r.num
  if atLeast (guess + 1) then guess + 1
  else if atLeast guess then guess
  else guess - 1

/--
The multiple of `10 ^ tens` that reads back as `b` and is nearest to it, if there is one. The numbers
that read back as `b` lie between the midpoints to its two neighbours, midpoints included if the
mantissa is even.
-/
def onGrid? (b : Binary) (tens : Int) : Option Nat :=
  let below := if b.narrowBelow then 1 else 2
  let r := Ratio.scaled (4 * b.mantissa) (b.exponent - 2) tens
  let unit := Ratio.scaled 1 (b.exponent - 2) tens
  let lo := r.num - below * unit.num
  let hi := r.num + 2 * unit.num
  let inside (d : Nat) : Bool :=
    let n := d * r.den
    if b.mantissa % 2 = 0 then lo ≤ n && n ≤ hi else lo < n && n < hi
  let down := r.num / r.den
  let up := down + 1
  match inside down, inside up with
  | true, true =>
    let half := 2 * (r.num - down * r.den)
    if half < r.den then some down
    else if r.den < half then some up
    else some (if down % 2 = 0 then down else up)
  | true, false => some down
  | false, true => some up
  | false, false => none

def dropZeros : (fuel : Nat) → Decimal → Decimal
  | 0, d => d
  | fuel + 1, d =>
    if d.digits % 10 = 0 ∧ d.digits ≠ 0 then
      dropZeros fuel { digits := d.digits / 10, exponent := d.exponent + 1 }
    else
      d

def maxDigits : Nat := 17

def shortest (b : Binary) : Decimal :=
  let top := leadingExponent b
  let onDigits (n : Nat) : Option Decimal :=
    let tens := top - n
    (onGrid? b tens).map fun d => { digits := d, exponent := tens }
  dropZeros (maxDigits + 1) (((List.range maxDigits).findSome? onDigits).getD ⟨0, 0⟩)

end Decimal

end LispScript
