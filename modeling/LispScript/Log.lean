import LispScript.Text.Blank
import LispScript.Text.Quoted

/-!
Log records: a level, a message and named values.
-/

namespace LispScript

inductive LogLevel where
  | debug
  | warn
  deriving DecidableEq, Repr

def LogLevel.text : LogLevel → String
  | debug => "DEBUG"
  | warn => "WARN"

structure LogRecord where
  level : LogLevel
  message : String
  fields : List (String × String)
  deriving DecidableEq, Repr

namespace LogRecord

def needsQuotes (c : Char) : Bool :=
  if c.toNat < 0x80 then
    c.toNat < 0x20 || c == ' ' || c == '=' || c == '"'
  else
    c == '\uFFFD' || isBlank c || !isPrintable c

/--
A value in a log line: quoted if it is empty or holds a character that asks for it.
-/
def valueText (s : String) : String :=
  if s.isEmpty || s.any needsQuotes then quoted s else s

def line (r : LogRecord) : String :=
  " ".intercalate <|
    (("level", r.level.text) :: ("msg", r.message) :: r.fields).map fun (key, value) =>
      key ++ "=" ++ valueText value

def listText (values : List String) : String :=
  "[" ++ " ".intercalate values ++ "]"

end LogRecord

end LispScript
