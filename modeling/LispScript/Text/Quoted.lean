import LispScript.Text.Printable

/-!
Quoted text as it stands in messages: printable code points as they are, all others as escapes.
-/

namespace LispScript

namespace Quoted

def hex (width n : Nat) : String :=
  let digits := Nat.toDigits 16 n
  String.ofList (List.replicate (width - digits.length) '0' ++ digits)

def escape (mark c : Char) : String :=
  if c = mark then "\\" ++ c.toString else
  match c with
  | '\\' => "\\\\"
  | '\n' => "\\n"
  | '\t' => "\\t"
  | '\r' => "\\r"
  | '\x07' => "\\a"
  | '\x08' => "\\b"
  | '\x0b' => "\\v"
  | '\x0c' => "\\f"
  | c =>
    if isPrintable c then c.toString
    else if c.toNat < 0x80 then "\\x" ++ hex 2 c.toNat
    else if c.toNat < 0x10000 then "\\u" ++ hex 4 c.toNat
    else "\\U" ++ hex 8 c.toNat

end Quoted

def quoted (s : String) : String :=
  "\"" ++ String.join (s.toList.map (Quoted.escape '"')) ++ "\""

def quotedChar (c : Char) : String :=
  "'" ++ Quoted.escape '\'' c ++ "'"

end LispScript
