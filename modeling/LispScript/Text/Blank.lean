import LispScript.Text.Glyph

/-!
Blank characters: the code points that separate words, and trimming of texts.
-/

namespace LispScript

/--
Is `c` white space? The class is the Unicode property `White_Space`: the ASCII blanks from tab to
carriage return, space, next line, no-break space, and the spaces and separators above.
-/
def isBlank (c : Char) : Bool :=
  c == ' ' || ('\t' ≤ c && c ≤ '\r') || c == '\u0085' || c == '\u00A0' || c == '\u1680' ||
    ('\u2000' ≤ c && c ≤ '\u200A') || c == '\u2028' || c == '\u2029' || c == '\u202F' ||
    c == '\u205F' || c == '\u3000'

def Glyph.isBlank : Glyph → Bool
  | .char c => LispScript.isBlank c
  | .stray _ => false

namespace Text

def trim (t : Text) : Text :=
  ((t.dropWhile Glyph.isBlank).reverse.dropWhile Glyph.isBlank).reverse

def words (t : Text) : List Text :=
  (t.splitOnP Glyph.isBlank).filter (!·.isEmpty)

end Text

end LispScript
