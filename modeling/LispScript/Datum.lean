import LispScript.Token

/-!
S-expressions: atoms, and lists of S-expressions.
-/

namespace LispScript

inductive Datum where
  | atom (location : Location) (a : Atom)
  | list (location : Location) (items : List Datum)
  deriving Repr

namespace Datum

def location : Datum → Location
  | atom l _ => l
  | list l _ => l

def shape : Datum → Shape
  | atom _ a => a.shape
  | list _ _ => .list

def symbol? : Datum → Option String
  | atom _ (.symbol name) => some name
  | _ => none

end Datum

/--
A list that has been opened and not yet closed; its items are in reverse.
-/
structure OpenList where
  location : Location
  items : List Datum := []

/--
A list reaches from its opening parenthesis to its closing one if both are on one line; else only the
opening one is shown.
-/
def OpenList.close (o : OpenList) (closing : Location) : Datum :=
  let length :=
    if closing.line = o.location.line then closing.column - o.location.column + 1
    else o.location.length
  .list { o.location with length } o.items.reverse

/--
The reader between two tokens: the open lists, innermost first, and the finished forms in reverse.
-/
structure Reader where
  outer : List OpenList := []
  data : List Datum := []

namespace Reader

def add (r : Reader) (d : Datum) : Reader :=
  match r.outer with
  | [] => { r with data := d :: r.data }
  | o :: outer => { r with outer := { o with items := d :: o.items } :: outer }

def step (r : Reader) (t : Token) : Except ReadError Reader :=
  match t.lexeme with
  | .atom a => .ok (r.add (.atom t.location a))
  | .opening => .ok { r with outer := { location := t.location } :: r.outer }
  | .closing =>
    match r.outer with
    | [] => .error (.atPlace t.location .unexpectedClose)
    | o :: outer => .ok ({ r with outer }.add (o.close t.location))

def finish (r : Reader) : Except ReadError (List Datum) :=
  match r.outer with
  | [] => .ok r.data.reverse
  | o :: _ => .error (.atPlace o.location .unclosedList)

end Reader

def Datum.readAll (file : String) (source : List Char) : Except ReadError (List Datum) := do
  let scan := Token.scan file source
  let reader ← scan.tokens.foldlM Reader.step {}
  match scan.error with
  | some e => .error e
  | none => reader.finish

end LispScript
