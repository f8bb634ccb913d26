/-!
Locations in source text.
-/

namespace LispScript

/--
A stretch of one source line. Lines and columns count from one, columns and lengths count code points.
Locations that do not come from the reader may hold any integers.
-/
structure Location where
  file : String
  line : Int
  column : Int
  length : Int
  deriving DecidableEq, Repr, Inhabited

namespace Location

def text (l : Location) : String :=
  s!"{l.file}:{l.line}:{l.column}"

end Location

end LispScript
