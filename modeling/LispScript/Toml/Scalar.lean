/-!
The scalars of TOML other than strings: which words are integers, floats, dates and times. Their
values do not matter here.
-/

namespace LispScript

namespace Toml

def isHex (c : Char) : Bool :=
  c.isDigit || ('a' ≤ c && c ≤ 'f') || ('A' ≤ c && c ≤ 'F')

def underscoresFit (word : List Char) : Bool :=
  go false word
where
  go (afterDigit : Bool) : List Char → Bool
    | [] => afterDigit
    | c :: rest => (c != '_' || afterDigit) && go (isHex c) rest

/--
Is the first digit a zero with more to follow? A base after the zero is fine.
-/
def hasLeadingZero (word : List Char) : Bool :=
  match word with
  | '0' :: c :: _ => c != 'b' && c != 'o' && c != 'x'
  | s :: '0' :: _ :: _ => s == '-' || s == '+'
  | _ => false

def valueIn (base : Nat) (digits : List Char) : Nat :=
  digits.foldl (fun n c => base * n + digit c) 0
where
  digit (c : Char) : Nat :=
    if c.isDigit then c.toNat - '0'.toNat else c.toLower.toNat - 'a'.toNat + 10

def isInteger (word : List Char) : Bool :=
  let digits := word.filter (· != '_')
  let limit := Nat.pow 2 63
  underscoresFit word && !hasLeadingZero word &&
    match digits with
    | '0' :: 'x' :: ds => valueIn 16 ds < limit
    | '0' :: 'o' :: ds => valueIn 8 ds < limit
    | '0' :: 'b' :: ds => valueIn 2 ds < limit
    | '-' :: ds => valueIn 10 ds ≤ limit
    | '+' :: ds => valueIn 10 ds < limit
    | ds => valueIn 10 ds < limit

def pointsFit : List Char → Bool
  | [] => true
  | ['.'] => false
  | '.' :: c :: rest => c.isDigit && pointsFit (c :: rest)
  | _ :: rest => pointsFit rest

def unsigned : List Char → List Char
  | '+' :: rest => rest
  | '-' :: rest => rest
  | rest => rest

/--
The least number that is too large for a double: half a step above the largest one.
-/
def tooLarge : Nat :=
  (Nat.pow 2 54 - 1) * Nat.pow 2 970

def tooLargeDigits : Nat := 309

def isInRange (digits : List Char) (exponent : Int) : Bool :=
  let length : Int := digits.length + exponent
  let n := valueIn 10 digits
  digits.isEmpty || length < tooLargeDigits ||
    (length = tooLargeDigits &&
      n * Nat.pow 10 exponent.toNat < tooLarge * Nat.pow 10 (-exponent).toNat)

def isFloat (word : List Char) : Bool :=
  let parts := (word.splitOnP fun c => c == '.' || c == 'e' || c == 'E').filter (!·.isEmpty)
  let body := unsigned (word.filter (· != '_'))
  let mantissa := body.takeWhile fun c => c != 'e' && c != 'E'
  let whole := mantissa.takeWhile (· != '.')
  let fraction := (mantissa.drop whole.length).drop 1
  let exponent := body.drop mantissa.length
  let power := unsigned (exponent.drop 1)
  let isDigits (cs : List Char) : Bool := cs.all Char.isDigit
  let shift : Int := if exponent[1]? = some '-' then -(valueIn 10 power : Int) else valueIn 10 power
  parts.all underscoresFit && !hasLeadingZero (parts.headD []) && pointsFit word &&
    isDigits whole && isDigits fraction && !(whole ++ fraction).isEmpty &&
    (exponent.isEmpty || (!power.isEmpty && isDigits power)) &&
    isInRange ((whole ++ fraction).dropWhile (· == '0')) (shift - fraction.length)

def monthDays (year month : Nat) : Nat :=
  if month = 2 then
    if year % 4 = 0 ∧ (year % 100 ≠ 0 ∨ year % 400 = 0) then 29 else 28
  else if month = 4 ∨ month = 6 ∨ month = 9 ∨ month = 11 then 30
  else 31

def takeDigits (n : Nat) (cs : List Char) : Option (Nat × List Char) :=
  let ds := cs.take n
  if ds.length = n ∧ ds.all Char.isDigit then some (valueIn 10 ds, cs.drop n) else none

def takeChar (c : Char) : List Char → Option (List Char)
  | d :: rest => if c = d then some rest else none
  | [] => none

def takeDate (cs : List Char) : Option (List Char) := do
  let (year, cs) ← takeDigits 4 cs
  let (month, cs) ← takeDigits 2 (← takeChar '-' cs)
  let (day, cs) ← takeDigits 2 (← takeChar '-' cs)
  guard (1 ≤ month ∧ month ≤ 12 ∧ 1 ≤ day ∧ day ≤ monthDays year month)
  return cs

def takeTime (cs : List Char) : Option (List Char) := do
  let (hour, cs) ← takeDigits 2 cs
  let (minute, cs) ← takeDigits 2 (← takeChar ':' cs)
  guard (hour < 24 ∧ minute < 60)
  match cs with
  | ':' :: cs =>
    let (second, cs) ← takeDigits 2 cs
    guard (second < 60)
    match cs with
    | '.' :: cs =>
      let fraction := cs.takeWhile Char.isDigit
      guard (!fraction.isEmpty)
      return cs.drop fraction.length
    | cs => return cs
  | cs => return cs

def isOffset (cs : List Char) : Bool :=
  match cs with
  | ['Z'] => true
  | sign :: cs =>
    (sign == '+' || sign == '-') &&
      match takeDigits 2 cs with
      | some (hour, ':' :: cs) =>
        match takeDigits 2 cs with
        | some (minute, []) => hour ≤ 24 && minute ≤ 60
        | _ => false
      | _ => false
  | [] => false

def isDateTime (word : List Char) : Bool :=
  let word := word.map fun c => if c == ' ' || c == 't' then 'T' else if c == 'z' then 'Z' else c
  match takeDate word with
  | some [] => true
  | some ('T' :: cs) =>
    match takeTime cs with
    | some rest => rest.isEmpty || isOffset rest
    | none => false
  | some _ => false
  | none => takeTime word == some []

end Toml

end LispScript
