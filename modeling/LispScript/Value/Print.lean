import LispScript.Decimal.Real
import LispScript.Store

/-!
The printed form of values. Strings and characters are written so that they can be read back;
records, record types and closures show only what they are. An array that stands inside of itself
is cut off.
-/

namespace LispScript

namespace Value

def charText (quote c : Char) : List Char :=
  match c with
  | '\n' => ['\\', 'n']
  | '\t' => ['\\', 't']
  | '\r' => ['\\', 'r']
  | '\\' => ['\\', '\\']
  | c => if c = quote then ['\\', quote] else [c]

def quotedText (quote : Char) (cs : List Char) : String :=
  String.ofList (quote :: cs.flatMap (charText quote) ++ [quote])

def flatText (s : Store) : Value → String
  | absent => ""
  | null => "null"
  | integer n => toString n.toInt
  | real x => Real.text x
  | char c => quotedText '\'' [c]
  | boolean b => if b then "true" else "false"
  | string r => quotedText '"' (s.string r).chars.toList
  | array _ => "[...]"
  | recordType r => s!"<struct {(s.recordType r).name}>"
  | record r => s!"<instance {(s.typeOf r).name}>"
  | closure r => s!"<closure/{(s.closure r).params.length}>"

/--
The printed form of a value inside of the arrays `outer`. Each array that is entered is a new one, so
there are at most as many levels as arrays, which is the `fuel`.
-/
def textInside (s : Store) : (fuel : Nat) → (outer : List Nat) → Value → String
  | fuel + 1, outer, array r =>
    if r ∈ outer then "[...]"
    else
      let elements := (s.array r).toList.map (textInside s fuel (r :: outer))
      "[" ++ " ".intercalate elements ++ "]"
  | _, _, v => flatText s v

def text (s : Store) (v : Value) : String :=
  textInside s (s.arrays.size + 1) [] v

end Value

end LispScript
