import LispScript.Text.Glyph
import LispScript.Toml.Scalar
import LispScript.Toml.Statement

/-!
Reading TOML. Only what a document says matters, not what is wrong with one that says nothing.
-/

namespace LispScript

namespace Toml

/--
A reader of a part of the text: what it read, and what follows.
-/
abbrev Parser (α : Type) := List Char → Option (α × List Char)

def isControl (c : Char) : Bool :=
  (c.toNat < 0x20 && c != '\t' && c != '\n' && c != '\r') || c.toNat == 0x7F

def isClean : List Char → Bool
  | [] => true
  | ['\r'] => false
  | '\r' :: c :: rest => c == '\n' && isClean (c :: rest)
  | c :: rest => !isControl c && isClean rest

def contents (t : Text) : Option (List Char) :=
  let t : Text :=
    match t with
    | .char '\uFEFF' :: rest => rest
    | .stray 0xFF :: .stray 0xFE :: rest => rest
    | .stray 0xFE :: .stray 0xFF :: rest => rest
    | t => t
  if t.isValid && isClean t.chars then some t.chars else none

def isSpace (c : Char) : Bool :=
  c == ' ' || c == '\t'

def isNewline (c : Char) : Bool :=
  c == '\n' || c == '\r'

def skipSpaces (cs : List Char) : List Char :=
  cs.dropWhile isSpace

def skipComment (cs : List Char) : List Char :=
  cs.dropWhile (!isNewline ·)

def skipLines : (fuel : Nat) → List Char → List Char
  | 0, cs => cs
  | fuel + 1, cs =>
    match cs.dropWhile fun c => isSpace c || isNewline c with
    | '#' :: rest => skipLines fuel (skipComment rest)
    | rest => rest

/-! Strings. -/

def hexEscape (n : Nat) : Parser Char := fun cs =>
  let ds := cs.take n
  let v := valueIn 16 ds
  if ds.length = n ∧ ds.all isHex ∧ v.isValidChar then some (Char.ofNat v, cs.drop n) else none

def escape : Parser Char
  | 'b' :: rest => some ('\x08', rest)
  | 't' :: rest => some ('\t', rest)
  | 'n' :: rest => some ('\n', rest)
  | 'f' :: rest => some ('\x0c', rest)
  | 'r' :: rest => some ('\r', rest)
  | 'e' :: rest => some ('\x1b', rest)
  | '"' :: rest => some ('"', rest)
  | '\\' :: rest => some ('\\', rest)
  | 'x' :: rest => hexEscape 2 rest
  | 'u' :: rest => hexEscape 4 rest
  | 'U' :: rest => hexEscape 8 rest
  | _ => none

def basicString : (fuel : Nat) → (read : List Char) → Parser String
  | 0, _, _ => none
  | fuel + 1, read, cs =>
    match cs with
    | '"' :: rest => some (String.ofList read.reverse, rest)
    | '\\' :: rest => do
      let (c, rest) ← escape rest
      basicString fuel (c :: read) rest
    | c :: rest => if isNewline c then none else basicString fuel (c :: read) rest
    | [] => none

def rawString : Parser String := fun cs =>
  let content := cs.takeWhile (· != '\'')
  match cs.drop content.length with
  | _ :: rest => if content.any isNewline then none else some (String.ofList content, rest)
  | [] => none

def skipFirstNewline : List Char → List Char
  | '\n' :: rest => rest
  | '\r' :: '\n' :: rest => rest
  | cs => cs

def spareQuotes (afterBackslash : Bool) : Nat :=
  if afterBackslash then 3 else 2

/--
The rest of a string in three quotes. Up to two quotes may stand right before the closing ones, and
three after an escaped backslash. In double quotes there are escapes, and a backslash at the end of a
line joins it with the next text.
-/
def longString (quote : Char) :
    (fuel : Nat) → (afterBackslash : Bool) → (read : List Char) → Parser String
  | 0, _, _, _ => none
  | fuel + 1, afterBackslash, read, cs =>
    match cs with
    | [] => none
    | c :: rest =>
      if c = quote then
        let run := cs.takeWhile (· == quote)
        let rest := cs.drop run.length
        if run.length < 3 then longString quote fuel false (run ++ read) rest
        else if run.length ≤ 3 + spareQuotes afterBackslash then
          some (String.ofList (read.reverse ++ run.drop 3), rest)
        else none
      else if c = '\\' ∧ quote = '"' then
        let gap := rest.takeWhile fun c => isSpace c || isNewline c
        if gap.contains '\n' then longString quote fuel false read (rest.drop gap.length)
        else
          match escape rest with
          | some (c, after) =>
            longString quote fuel (c == '\\' && rest.head? == some '\\') (c :: read) after
          | none => none
      else longString quote fuel false (c :: read) rest

/-! Keys. -/

def isBare (c : Char) : Bool :=
  c.isAlphanum || c == '_' || c == '-'

def keyPart : Parser String
  | '"' :: rest => basicString (rest.length + 1) [] rest
  | '\'' :: rest => rawString rest
  | cs =>
    let word := cs.takeWhile isBare
    if word.isEmpty then none else some (String.ofList word, cs.drop word.length)

def key : (fuel : Nat) → Parser Key
  | 0, _ => none
  | fuel + 1, cs => do
    let (part, rest) ← keyPart (skipSpaces cs)
    match skipSpaces rest with
    | '.' :: rest => do
      let (parts, rest) ← key fuel rest
      return (part :: parts, rest)
    | rest => return ([part], rest)

/-! Values. -/

def scalar (ok : List Char → Bool) (word rest : List Char) : Option (Written × List Char) :=
  if ok word then some (.scalar, rest) else none

def number (sign : List Char) : Parser Written := fun cs =>
  let digits := cs.takeWhile fun c => c.isDigit || c == '_'
  let rest := cs.drop digits.length
  let based (isDigit : Char → Bool) : Option (Written × List Char) :=
    let ds := (cs.drop 2).takeWhile fun c => isDigit c || c == '_'
    if sign.isEmpty && (ds.head?.map isDigit).getD false then
      scalar isInteger (cs.take 2 ++ ds) (cs.drop (2 + ds.length))
    else none
  match cs.take 2, rest with
  | ['0', 'x'], _ => based isHex
  | ['0', 'o'], _ => based fun c => '0' ≤ c && c ≤ '7'
  | ['0', 'b'], _ => based fun c => c == '0' || c == '1'
  | _, c :: _ =>
    if c == '.' || c == 'e' || c == 'E' then
      let word := cs.takeWhile fun c => c.isDigit || "_.-+eE".toList.contains c
      scalar isFloat (sign ++ word) (cs.drop word.length)
    else if (c == '-' || c == ':') && sign.isEmpty then
      let word := cs.takeWhile fun c => c.isDigit || "-:Tt .Zz+".toList.contains c
      scalar isDateTime (word.reverse.dropWhile (· == ' ')).reverse (cs.drop word.length)
    else scalar isInteger (sign ++ digits) rest
  | _, [] => scalar isInteger (sign ++ digits) rest

mutual

def value : (fuel : Nat) → Parser Written
  | 0, _ => none
  | fuel + 1, cs =>
    match skipSpaces cs with
    | '[' :: rest => do
      let (elements, rest) ← arrayElements fuel rest
      return (.array elements, rest)
    | '\x7b' :: rest => do
      let (entries, rest) ← inlineEntries fuel rest
      return (.inlineTable entries, rest)
    | '"' :: '"' :: '"' :: rest => do
      let (s, rest) ← longString '"' (rest.length + 1) false [] (skipFirstNewline rest)
      return (.string s, rest)
    | '\'' :: '\'' :: '\'' :: rest => do
      let (s, rest) ← longString '\'' (rest.length + 1) false [] (skipFirstNewline rest)
      return (.string s, rest)
    | '"' :: rest => do
      let (s, rest) ← basicString (rest.length + 1) [] rest
      return (.string s, rest)
    | '\'' :: rest => do
      let (s, rest) ← rawString rest
      return (.string s, rest)
    | 't' :: 'r' :: 'u' :: 'e' :: rest => some (.boolean true, rest)
    | 'f' :: 'a' :: 'l' :: 's' :: 'e' :: rest => some (.boolean false, rest)
    | 'i' :: 'n' :: 'f' :: rest => some (.scalar, rest)
    | 'n' :: 'a' :: 'n' :: rest => some (.scalar, rest)
    | c :: rest =>
      if c.isDigit then number [] (c :: rest)
      else if c == '+' || c == '-' then
        match rest with
        | 'i' :: 'n' :: 'f' :: rest => some (.scalar, rest)
        | 'n' :: 'a' :: 'n' :: rest => some (.scalar, rest)
        | d :: _ => if d.isDigit then number [c] rest else none
        | [] => none
      else none
    | [] => none

def arrayElements : (fuel : Nat) → Parser (List Written)
  | 0, _ => none
  | fuel + 1, cs =>
    match skipLines cs.length cs with
    | ']' :: rest => some ([], rest)
    | cs => do
      let (w, rest) ← value fuel cs
      match skipLines rest.length rest with
      | ',' :: rest => do
        let (ws, rest) ← arrayElements fuel rest
        return (w :: ws, rest)
      | ']' :: rest => return ([w], rest)
      | _ => none

def inlineEntries : (fuel : Nat) → Parser (List (Key × Written))
  | 0, _ => none
  | fuel + 1, cs =>
    match skipLines cs.length cs with
    | '\x7d' :: rest => some ([], rest)
    | cs => do
      let (k, rest) ← key cs.length cs
      let rest ← takeChar '=' rest
      let (w, rest) ← value fuel rest
      match skipLines rest.length rest with
      | ',' :: rest => do
        let (entries, rest) ← inlineEntries fuel rest
        return ((k, w) :: entries, rest)
      | '\x7d' :: rest => return ([(k, w)], rest)
      | _ => none

end

/-! Statements. -/

def lineEnd (cs : List Char) : Option (List Char) :=
  match skipSpaces cs with
  | [] => some []
  | c :: rest =>
    if c = '#' then some (skipComment rest)
    else if isNewline c then some rest
    else none

def statement (cs : List Char) : Option (Statement × List Char) :=
  match cs with
  | '[' :: '[' :: rest => do
    let (k, rest) ← key rest.length rest
    let rest ← takeChar ']' rest
    let rest ← takeChar ']' rest
    return (.tableOfArray k, rest)
  | '[' :: rest => do
    let (k, rest) ← key rest.length rest
    let rest ← takeChar ']' rest
    return (.table k, rest)
  | cs => do
    let (k, rest) ← key cs.length cs
    let rest ← takeChar '=' rest
    let (w, rest) ← value cs.length rest
    return (.entry k w, rest)

def statements : (fuel : Nat) → List Char → Option (List Statement)
  | 0, _ => none
  | fuel + 1, cs =>
    match skipLines cs.length cs with
    | [] => some []
    | cs => do
      let (s, rest) ← statement cs
      let rest ← lineEnd rest
      return s :: (← statements fuel rest)

def parse (t : Text) : Option Document := do
  let cs ← contents t
  Document.ofStatements (← statements (cs.length + 1) cs)

end Toml

end LispScript
